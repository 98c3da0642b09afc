import Mathlib.Data.List.Nodup
import ShaderStage.Module.Listing
import ShaderStage.Proofs.Quoting
import ShaderStage.Proofs.Signature

/-! # Words of a listing

A line of a listing is a sequence of words with blanks between them. A word is a name, a number or a
mark, none of which has a blank, or else a quoted text. Names come from tables; a value without a
name shows its number, and no name looks like one. So a line tells its words, and a word tells what
it stands for.

* `Enumerant.Clear.injective`, `Opcode.mnemonic_injective`: a name tells what it stands for;
* `trailed_inj`: a line tells its words. -/

namespace ShaderStage

/-! ## Names and numbers -/

/-- A number in decimal tells the number. -/
theorem toString_injective : Function.Injective (toString : Nat → String) := by
  intro m n h
  have hdigits := congrArg (fun text => Nat.ofDigitChars 10 text.toList 0) h
  simpa [Nat.toString_eq_ofList_toDigits] using hdigits

/-- Values are told apart by what a table calls them, if it has no name twice and none that stands
for a value without a name. -/
theorem lookup_getD_injective {α : Type} [BEq α] [LawfulBEq α] {table : List (α × String)}
    {fallback : α → String} (hnames : (table.map Prod.snd).Nodup)
    (hfallback : Function.Injective fallback) (hapart : ∀ a, ∀ e ∈ table, e.2 ≠ fallback a) :
    Function.Injective fun a => (table.lookup a).getD (fallback a) := by
  intro a b h
  dsimp only at h
  cases ha : table.lookup a with
  | none =>
    cases hb : table.lookup b with
    | none =>
      rw [ha, hb] at h
      exact hfallback h
    | some name =>
      rw [ha, hb] at h
      exact absurd h.symm (hapart a _ (mem_of_lookup hb))
  | some name =>
    cases hb : table.lookup b with
    | none =>
      rw [ha, hb] at h
      exact absurd h (hapart b _ (mem_of_lookup ha))
    | some name' =>
      rw [ha, hb] at h
      have heq := List.inj_on_of_nodup_map hnames (mem_of_lookup ha) (mem_of_lookup hb) h
      exact congrArg Prod.fst heq

/-! ## Characters of a word -/

/-- A large byte comes from a large character. -/
theorem any_bytesOf_iff {n : Nat} (hn : n < 128) {text : String} :
    ((Literal.bytesOf text).any (n < ·.toNat)) = true ↔ ∃ c ∈ text.toList, n < c.toNat := by
  simp only [bytesOf_eq_flatMap, List.any_eq_true, decide_eq_true_eq]
  constructor
  · rintro ⟨b, hb, hlt⟩
    obtain ⟨c, hc, hb⟩ := List.mem_flatMap.mp hb
    exact ⟨c, hc, (lt_utf8EncodeChar_iff hn hb).mp hlt⟩
  · rintro ⟨c, hc, hlt⟩
    obtain ⟨b, hb⟩ := List.exists_mem_of_ne_nil _ (String.utf8EncodeChar_ne_nil (c := c))
    exact ⟨b, List.mem_flatMap.mpr ⟨c, hc, hb⟩, (lt_utf8EncodeChar_iff hn hb).mpr hlt⟩

/-! ## Names in tables -/

/-- The names of a table can be told from each other and from numbers, and are words. -/
structure Enumerant.Clear (e : Enumerant) : Prop where
  nodup : (e.map Prod.snd).Nodup
  names : ∀ x ∈ e, ∃ c ∈ x.2.toList, '9'.toNat < c.toNat
  plain : ∀ x ∈ e, Plain x.2

instance (e : Enumerant) : Decidable e.Clear :=
  decidable_of_iff ((e.map Prod.snd).Nodup ∧
    (∀ x ∈ e, (Literal.bytesOf x.2).any (57 < ·.toNat) = true) ∧ ∀ x ∈ e, Plain x.2) (by
    simp only [any_bytesOf_iff (n := 57) (by decide)]
    exact ⟨fun h => ⟨h.1, h.2.1, h.2.2⟩, fun h => ⟨h.nodup, h.names, h.plain⟩⟩)

/-- A clear table tells the value. -/
theorem Enumerant.Clear.injective {e : Enumerant} (h : e.Clear) : Function.Injective e.name := by
  refine lookup_getD_injective h.nodup ?_ ?_
  · intro a b hab
    exact UInt32.toNat_inj.mp (toString_injective hab)
  · intro w x hx heq
    obtain ⟨c, hc, hletter⟩ := h.names x hx
    rw [heq] at hc
    have hdigit := toNat_of_isDigit (isDigit_of_mem_toString hc)
    exact absurd hletter (Nat.not_lt.mpr hdigit.2)

/-- A clear table has plain names. -/
theorem Enumerant.Clear.plain_name {e : Enumerant} (h : e.Clear) (w : Word) : Plain (e.name w) := by
  unfold Enumerant.name
  cases hw : e.lookup w with
  | none => exact plain_toString _
  | some name => exact h.plain _ (mem_of_lookup hw)

namespace Opcode

/-- The mnemonics in the table are made of letters only. -/
theorem lt_of_mem_mnemonics : ∀ e ∈ mnemonics, ∀ c ∈ e.2.toList, 57 < c.toNat := by
  have hbytes : ∀ e ∈ mnemonics, (Literal.bytesOf e.2).all (57 < ·.toNat) = true := by decide
  intro e he
  exact (all_bytesOf_iff (by decide)).mp (hbytes e he)

/-- A mnemonic tells the opcode. -/
theorem mnemonic_injective : Function.Injective mnemonic := by
  refine lookup_getD_injective (by decide) ?_ ?_
  · intro a b hab
    exact UInt16.toNat_inj.mp (toString_injective ((String.append_right_inj _).mp hab))
  · -- a number has a digit
    intro op e he heq
    obtain ⟨c, hc⟩ := List.exists_mem_of_ne_nil _ (Nat.toDigits_ne_nil (n := op.toNat) (b := 10))
    have hdigit := toNat_of_isDigit (Nat.isDigit_of_mem_toDigits (by decide) (by decide) hc)
    have hmem : c ∈ e.2.toList := by
      rw [heq, String.toList_append]
      refine List.mem_append_right _ ?_
      rwa [Nat.toString_eq_ofList_toDigits, String.toList_ofList]
    have hletter := lt_of_mem_mnemonics e he c hmem
    omega

/-- Mnemonics are made of letters and digits. -/
theorem lt_of_mem_mnemonic {op : Opcode} {c : Char} (hc : c ∈ op.mnemonic.toList) :
    48 ≤ c.toNat := by
  unfold mnemonic at hc
  cases hop : mnemonics.lookup op with
  | none =>
    rw [hop, Option.getD_none, String.toList_append] at hc
    rcases List.mem_append.mp hc with hletter | hdigit
    · have hpair : c ∈ ['O', 'p'] := by simpa using hletter
      rcases List.mem_pair.mp hpair with rfl | rfl <;> decide
    · exact (toNat_of_isDigit (isDigit_of_mem_toString hdigit)).1
  | some name =>
    rw [hop] at hc
    have hletter := lt_of_mem_mnemonics _ (mem_of_lookup hop) c hc
    omega

/-- A mnemonic is plain. -/
theorem plain_mnemonic (op : Opcode) : Plain op.mnemonic := by
  intro c hc
  have hlt := lt_of_mem_mnemonic hc
  show 34 < c.toNat
  omega

theorem mnemonic_ne_empty (op : Opcode) : op.mnemonic ≠ "" := by
  have htable : ∀ e ∈ mnemonics, e.2 ≠ "" := by decide
  unfold mnemonic
  cases hop : mnemonics.lookup op with
  | none => simp
  | some name => exact htable _ (mem_of_lookup hop)

end Opcode

/-! ## Words of a line -/

/-- A word of a line: it has no blanks, or it is a quoted text. -/
inductive IsWord : String → Prop
  | plain {w : String} (h : Plain w) : IsWord w
  | quoted (text : String) : IsWord (Text.quote text)

/-- No line ends inside of a word. -/
theorem IsWord.newline_not_mem {w : String} (h : IsWord w) : '\n' ∉ w.toList := by
  cases h with
  | plain h => exact h.not_mem (by decide)
  | quoted text =>
    rw [Text.toList_quote, List.mem_cons, List.mem_append, List.mem_flatMap, List.mem_singleton]
    rintro (hopen | ⟨c, -, hc⟩ | hclose)
    · cases hopen
    · exact Text.newline_not_mem_escapeChar c hc
    · cases hclose

/-- Words, each with a blank after it. -/
def trailed (ws : List String) : List Char :=
  ws.flatMap fun w => w.toList ++ [' ']

theorem trailed_cons (w : String) (ws : List String) :
    trailed (w :: ws) = w.toList ++ ' ' :: trailed ws := by
  simp [trailed]

/-- A word without blanks does not start like a quoted text. -/
theorem Plain.head?_append_ne {w : String} (h : Plain w) (rest : List Char) :
    (w.toList ++ ' ' :: rest).head? ≠ some '"' := by
  cases hchars : w.toList with
  | nil => simp
  | cons c cs =>
    intro hhead
    cases hhead
    have hmem : '"' ∈ w.toList := by
      rw [hchars]
      exact List.mem_cons_self
    exact h.not_mem (by decide) hmem

/-- The first word of a line, and what follows it. -/
theorem word_append_inj {w w' : String} (hw : IsWord w) (hw' : IsWord w') {rest rest' : List Char}
    (h : w.toList ++ ' ' :: rest = w'.toList ++ ' ' :: rest') : w = w' ∧ rest = rest' := by
  have hhead := congrArg List.head? h
  cases hw with
  | plain hw =>
    cases hw' with
    | plain hw' =>
      have hblank : ∀ {v : String}, Plain v → ' ' ∉ v.toList :=
        fun hv => hv.not_mem (by decide)
      have hname := congrArg (nameBefore ' ') h
      have hrest := congrArg (restAfter ' ') h
      rw [nameBefore_append (hblank hw), nameBefore_append (hblank hw')] at hname
      rw [restAfter_append (hblank hw), restAfter_append (hblank hw')] at hrest
      exact ⟨hname, hrest⟩
    | quoted text' =>
      -- The first character tells quoted texts from other words.
      rw [Text.toList_quote] at hhead
      exact absurd hhead (hw.head?_append_ne rest)
  | quoted text =>
    cases hw' with
    | plain hw' =>
      rw [Text.toList_quote] at hhead
      exact absurd hhead.symm (hw'.head?_append_ne rest')
    | quoted text' =>
      rw [Text.toList_quote, Text.toList_quote] at h
      simp only [List.cons_append, List.append_assoc, List.cons.injEq, true_and,
        List.nil_append] at h
      obtain ⟨htext, hrest⟩ := Text.flatMap_escapeChar_inj h
      rw [String.toList_inj.mp htext, List.cons.inj hrest |>.2]
      exact ⟨rfl, rfl⟩

/-- A line tells its words, by induction on the words. -/
theorem trailed_inj {ws ws' : List String} (hws : ∀ w ∈ ws, IsWord w)
    (hws' : ∀ w ∈ ws', IsWord w) (h : trailed ws = trailed ws') : ws = ws' := by
  induction ws generalizing ws' with
  | nil =>
    cases ws' with
    | nil => rfl
    | cons w' ws' => simp [trailed] at h
  | cons w ws ih =>
    cases ws' with
    | nil => simp [trailed] at h
    | cons w' ws' =>
      rw [trailed_cons, trailed_cons] at h
      obtain ⟨hfirst, hrest⟩ := List.forall_mem_cons.mp hws
      obtain ⟨hfirst', hrest'⟩ := List.forall_mem_cons.mp hws'
      obtain ⟨rfl, htrailed⟩ := word_append_inj hfirst hfirst' h
      rw [ih hrest hrest' htrailed]

end ShaderStage
