import Mathlib.Data.List.TakeWhile
import ShaderStage.Text.Blank
import ShaderStage.Text.Numeral

/-! # Words and numerals

What trimming, splitting and the readers of numbers do, said of whole texts. Trimming takes the
blanks off both ends and nothing else. The words of a line are the words that were put there,
however they are spaced. A numeral is read exactly if it is made of digits and its value is in
range, and a number that is written in decimal is read back.

* `trim_append`: what trimming takes off;
* `Spaced.words_eq`, `words_eq_iff`: the words of a line;
* `readUInt32_eq_ok_iff`, `readInt64_eq_ok_iff`: the numerals that are read. -/

namespace ShaderStage

namespace Text

/-! ## Trimming -/

/-- The text is blank, or empty. -/
def Blanks (cs : List Char) : Prop :=
  ∀ c ∈ cs, isBlank c = true

/-- The text has no blank at either end. -/
structure Trimmed (cs : List Char) : Prop where
  head : ∀ c ∈ cs.head?, isBlank c = false
  last : ∀ c ∈ cs.getLast?, isBlank c = false

instance (cs : List Char) : Decidable (Blanks cs) :=
  List.decidableBAll _ cs

/-- A text is trimmed if neither end is blank. -/
theorem trimmed_iff {cs : List Char} :
    (cs.head?.all (!isBlank ·) && cs.getLast?.all (!isBlank ·)) = true ↔ Trimmed cs := by
  simp only [Bool.and_eq_true, Option.all_eq_true, Bool.not_eq_true']
  constructor
  · rintro ⟨hhead, hlast⟩
    exact ⟨hhead, hlast⟩
  · rintro ⟨hhead, hlast⟩
    exact ⟨hhead, hlast⟩

instance (cs : List Char) : Decidable (Trimmed cs) :=
  decidable_of_iff _ trimmed_iff

theorem blanks_nil : Blanks [] := by
  intro c hc
  cases hc

theorem Blanks.append {cs cs' : List Char} (h : Blanks cs) (h' : Blanks cs') : Blanks (cs ++ cs') :=
  List.forall_mem_append.mpr ⟨h, h'⟩

theorem Blanks.reverse {cs : List Char} (h : Blanks cs) : Blanks cs.reverse := by
  intro c hc
  exact h c (List.mem_reverse.mp hc)

theorem Trimmed.reverse {cs : List Char} (h : Trimmed cs) : Trimmed cs.reverse := by
  constructor
  · rw [List.head?_reverse]
    exact h.last
  · rw [List.getLast?_reverse]
    exact h.head

/-- Blanks in front are taken off. -/
theorem trimStart_append {lead : List Char} (h : Blanks lead) (cs : List Char) :
    trimStart (lead ++ cs) = trimStart cs :=
  List.dropWhile_append_of_pos h

/-- A text that starts with no blank stays as it is. -/
theorem trimStart_eq_self {cs : List Char} (h : ∀ c ∈ cs.head?, isBlank c = false) :
    trimStart cs = cs := by
  cases cs with
  | nil => rfl
  | cons c cs => simp [trimStart, h c rfl]

/-- A trimmed text between blanks begins with the text, unless there is none. -/
theorem trimStart_between {cs trail : List Char} (h : Trimmed cs) (htrail : Blanks trail) :
    ∃ rest, Blanks rest ∧ trimStart (cs ++ trail) = cs ++ rest := by
  cases cs with
  | nil =>
    refine ⟨[], blanks_nil, ?_⟩
    exact List.dropWhile_eq_nil_iff.mpr htrail
  | cons c cs =>
    refine ⟨trail, htrail, trimStart_eq_self ?_⟩
    exact h.head

/-- Trimming takes off the blanks around a text. -/
theorem trim_append {lead cs trail : List Char} (hlead : Blanks lead) (h : Trimmed cs)
    (htrail : Blanks trail) : trim (lead ++ (cs ++ trail)) = cs := by
  obtain ⟨rest, hrest, hstart⟩ := trimStart_between h htrail
  rw [trim, trimStart_append hlead, hstart, trimEnd, List.reverse_append,
    trimStart_append hrest.reverse, trimStart_eq_self h.reverse.head, List.reverse_reverse]

/-- A trimmed text stays as it is. -/
theorem trim_of_trimmed {cs : List Char} (h : Trimmed cs) : trim cs = cs := by
  have htrim := trim_append blanks_nil h blanks_nil
  rwa [List.nil_append, List.append_nil] at htrim

/-- The blanks at the start of a text, and what is left without them. -/
theorem exists_blanks_trimStart (cs : List Char) :
    ∃ lead, Blanks lead ∧ cs = lead ++ trimStart cs ∧
      ∀ c ∈ (trimStart cs).head?, isBlank c = false := by
  refine ⟨cs.takeWhile isBlank, ?_, List.takeWhile_append_dropWhile.symm, ?_⟩
  · intro c hc
    exact List.mem_takeWhile_imp hc
  · intro c hc
    have hhead := List.head?_dropWhile_not isBlank cs
    rw [show (cs.dropWhile isBlank).head? = some c from hc] at hhead
    exact hhead

/-- Every text is a trimmed text between blanks. -/
theorem exists_blanks_trim (cs : List Char) :
    ∃ lead trail, Blanks lead ∧ Blanks trail ∧ cs = lead ++ (trim cs ++ trail) ∧
      Trimmed (trim cs) := by
  obtain ⟨lead, hlead, hcs, hhead⟩ := exists_blanks_trimStart cs
  obtain ⟨trail, htrail, hback, hlast⟩ := exists_blanks_trimStart (trimStart cs).reverse
  have hsplit : trimStart cs = trim cs ++ trail.reverse := by
    rw [← List.reverse_inj, List.reverse_append, List.reverse_reverse, trim, trimEnd,
      List.reverse_reverse]
    exact hback
  refine ⟨lead, trail.reverse, hlead, htrail.reverse, ?_, ?_, ?_⟩
  · rw [← hsplit]
    exact hcs
  · -- the text begins like the one that is trimmed at its start only
    intro c hc
    apply hhead
    rw [hsplit, List.head?_append, Option.mem_def.mp hc]
    rfl
  · intro c hc
    apply hlast
    rwa [trim, trimEnd, List.getLast?_reverse] at hc

/-! ## Words -/

/-- The text is a word: it is not empty and has no blanks. -/
structure IsWord (cs : List Char) : Prop where
  ne_nil : cs ≠ []
  solid : ∀ c ∈ cs, isBlank c = false

instance (cs : List Char) : Decidable (IsWord cs) :=
  have : Decidable (∀ c ∈ cs, isBlank c = false) := List.decidableBAll _ cs
  decidable_of_iff (cs ≠ [] ∧ ∀ c ∈ cs, isBlank c = false)
    ⟨fun h => ⟨h.1, h.2⟩, fun h => ⟨h.ne_nil, h.solid⟩⟩

/-- The line has these words, in order, with blanks between them and around them. -/
inductive Spaced : List Char → List (List Char) → Prop
  | nil {gap : List Char} (hgap : Blanks gap) : Spaced gap []
  | cons {gap word rest : List Char} {words : List (List Char)} (hgap : Blanks gap)
      (hword : IsWord word) (hend : ∀ c ∈ rest.head?, isBlank c = true)
      (hrest : Spaced rest words) : Spaced (gap ++ (word ++ rest)) (word :: words)

/-- Blanks before a word are skipped. -/
theorem wordsFrom_blanks {gap : List Char} (h : Blanks gap) (cs : List Char) :
    wordsFrom [] (gap ++ cs) = wordsFrom [] cs := by
  induction gap with
  | nil => rfl
  | cons c gap ih =>
    have hc : isBlank c = true := h c List.mem_cons_self
    have hgap : Blanks gap := fun c hc => h c (List.mem_cons_of_mem _ hc)
    simp only [List.cons_append, wordsFrom, hc, if_true, List.isEmpty_nil]
    exact ih hgap

/-- What is not blank is added to the word. -/
theorem wordsFrom_solid {cs : List Char} (h : ∀ c ∈ cs, isBlank c = false) (word rest : List Char) :
    wordsFrom word (cs ++ rest) = wordsFrom (cs.reverse ++ word) rest := by
  induction cs generalizing word with
  | nil => rfl
  | cons c cs ih =>
    have hc : isBlank c = false := h c List.mem_cons_self
    simp only [List.cons_append, wordsFrom, hc, Bool.false_eq_true, if_false]
    rw [ih (fun c hc => h c (List.mem_cons_of_mem _ hc)), List.reverse_cons, List.append_assoc]
    rfl

/-- A blank, or the end, ends the word. -/
theorem wordsFrom_end {word rest : List Char} (hword : word ≠ [])
    (hend : ∀ c ∈ rest.head?, isBlank c = true) :
    wordsFrom word rest = word.reverse :: wordsFrom [] rest := by
  have hempty : word.isEmpty = false := List.isEmpty_eq_false_iff.mpr hword
  cases rest with
  | nil => simp [wordsFrom, hempty]
  | cons c rest => simp [wordsFrom, hempty, hend c rfl]

/-- However words are spaced, they are found again. -/
theorem Spaced.words_eq {line : List Char} {ws : List (List Char)} (h : Spaced line ws) :
    words line = ws := by
  induction h with
  | nil hgap =>
    have hwords := wordsFrom_blanks hgap []
    rwa [List.append_nil] at hwords
  | @cons gap word rest ws hgap hword hend _ ih =>
    have hne : word.reverse ≠ [] := by simpa using hword.ne_nil
    rw [words, wordsFrom_blanks hgap, wordsFrom_solid hword.solid, List.append_nil,
      wordsFrom_end hne hend, List.reverse_reverse]
    exact congrArg (word :: ·) ih

/-- A blank in front does not matter. -/
theorem Spaced.blank {c : Char} {line : List Char} {ws : List (List Char)} (hc : isBlank c = true)
    (h : Spaced line ws) : Spaced (c :: line) ws := by
  have hcons : ∀ {gap : List Char}, Blanks gap → Blanks (c :: gap) := by
    intro gap hgap
    exact List.forall_mem_cons.mpr ⟨hc, hgap⟩
  cases h with
  | nil hgap => exact .nil (hcons hgap)
  | cons hgap hword hend hrest => exact .cons (hcons hgap) hword hend hrest

/-- What is read of a line, whatever was read of a word before it. -/
theorem spaced_wordsFrom {word : List Char} (hword : ∀ c ∈ word, isBlank c = false)
    (cs : List Char) : Spaced (word.reverse ++ cs) (wordsFrom word cs) := by
  have hisWord : ∀ {word : List Char}, word ≠ [] → (∀ c ∈ word, isBlank c = false) →
      IsWord word.reverse := by
    intro word hne hword
    constructor
    · simpa using hne
    · intro c hc
      exact hword c (List.mem_reverse.mp hc)
  induction cs generalizing word with
  | nil =>
    by_cases hne : word = []
    · subst hne
      exact .nil blanks_nil
    · have hend : ∀ d ∈ ([] : List Char).head?, isBlank d = true := by
        intro d hd
        cases hd
      rw [wordsFrom_end hne hend]
      exact .cons blanks_nil (hisWord hne hword) hend (.nil blanks_nil)
  | cons c cs ih =>
    cases hc : isBlank c with
    | true =>
      have hrest : Spaced (c :: cs) (wordsFrom [] cs) := .blank hc (@ih [] (by simp))
      by_cases hne : word = []
      · subst hne
        simpa [wordsFrom, hc] using hrest
      · have hend : ∀ d ∈ (c :: cs).head?, isBlank d = true := by
          intro d hd
          cases hd
          exact hc
        rw [wordsFrom_end hne hend]
        refine .cons blanks_nil (hisWord hne hword) hend ?_
        simpa [wordsFrom, hc] using hrest
    | false =>
      -- The character goes on with the word.
      have hlonger : ∀ d ∈ c :: word, isBlank d = false := by
        intro d hd
        rcases List.mem_cons.mp hd with rfl | hd
        · exact hc
        · exact hword d hd
      have hspaced := ih hlonger
      simpa [wordsFrom, hc] using hspaced

/-- The words that are read of a line are those that were put there. -/
theorem words_eq_iff {line : List Char} {ws : List (List Char)} :
    words line = ws ↔ Spaced line ws := by
  constructor
  · rintro rfl
    exact @spaced_wordsFrom [] (by simp) line
  · intro h
    exact h.words_eq

/-- Words can be put on a line. -/
theorem exists_spaced {ws : List (List Char)} (h : ∀ w ∈ ws, IsWord w) :
    ∃ line, Spaced line ws := by
  induction ws with
  | nil => exact ⟨[], .nil blanks_nil⟩
  | cons w ws ih =>
    rw [List.forall_mem_cons] at h
    obtain ⟨line, hline⟩ := ih h.2
    refine ⟨_, .cons blanks_nil h.1 ?_ (hline.blank (show isBlank ' ' = true by decide))⟩
    rintro c ⟨⟩
    decide

/-! ## Numerals -/

/-- The text is a decimal numeral with this value; leading zeros are allowed. -/
structure Numeral (cs : List Char) (n : Nat) : Prop where
  ne_nil : cs ≠ []
  digits : ∀ c ∈ cs, c.isDigit = true
  value : Nat.ofDigitChars 10 cs 0 = n

/-- A digit has its value. -/
theorem digit?_of_isDigit {c : Char} (h : c.isDigit = true) :
    digit? c = some (c.toNat - '0'.toNat) := by
  have hrange : ('0' ≤ c && c ≤ '9') = true := h
  rw [digit?, if_pos hrange]

/-- Nothing else is a digit. -/
theorem digit?_eq_none {c : Char} (h : c.isDigit = false) : digit? c = none := by
  have hrange : ('0' ≤ c && c ≤ '9') = false := h
  rw [digit?, hrange]
  rfl

/-- More digits do not make a number smaller. -/
theorem le_ofDigitChars (cs : List Char) (n : Nat) : n ≤ Nat.ofDigitChars 10 cs n := by
  induction cs generalizing n with
  | nil => exact Nat.le_refl n
  | cons c cs ih =>
    rw [Nat.ofDigitChars_cons]
    have hrest := ih (10 * n + (c.toNat - '0'.toNat))
    omega

/-- Digits are read if their value stays within the limit. It is enough to look at the last value,
since values only grow on the way. -/
theorem readDigits_eq_ok_iff {limit n m : Nat} (hn : n ≤ limit) {cs : List Char} :
    readDigits limit n cs = .ok m ↔
      (∀ c ∈ cs, c.isDigit = true) ∧ Nat.ofDigitChars 10 cs n = m ∧ m ≤ limit := by
  induction cs generalizing n with
  | nil =>
    constructor
    · intro h
      cases h
      exact ⟨by simp, rfl, hn⟩
    · rintro ⟨-, rfl, -⟩
      rfl
  | cons c cs ih =>
    cases hc : c.isDigit with
    | false =>
      rw [readDigits, digit?_eq_none hc]
      constructor
      · rintro ⟨⟩
      · rintro ⟨hdigits, -⟩
        have htrue := hdigits c List.mem_cons_self
        rw [hc] at htrue
        cases htrue
    | true =>
      rw [readDigits, digit?_of_isDigit hc, List.forall_mem_cons, Nat.ofDigitChars_cons]
      dsimp only
      by_cases hlimit : limit < 10 * n + (c.toNat - '0'.toNat)
      · rw [if_pos hlimit]
        constructor
        · rintro ⟨⟩
        · rintro ⟨-, rfl, hle⟩
          have hgrow := le_ofDigitChars cs (10 * n + (c.toNat - '0'.toNat))
          omega
      · rw [if_neg hlimit, ih (Nat.not_lt.mp hlimit)]
        simp [hc]

/-- A number is read exactly if it is a numeral and not too large. -/
theorem readNat_eq_ok_iff {limit n : Nat} {cs : List Char} :
    readNat limit cs = .ok n ↔ Numeral cs n ∧ n ≤ limit := by
  unfold readNat
  cases cs with
  | nil =>
    constructor
    · rintro ⟨⟩
    · rintro ⟨h, -⟩
      exact absurd rfl h.ne_nil
  | cons c cs =>
    rw [List.isEmpty_cons, if_neg Bool.false_ne_true, readDigits_eq_ok_iff (Nat.zero_le _)]
    constructor
    · rintro ⟨hdigits, hvalue, hle⟩
      exact ⟨⟨List.cons_ne_nil _ _, hdigits, hvalue⟩, hle⟩
    · rintro ⟨h, hle⟩
      exact ⟨h.digits, h.value, hle⟩

/-- An unsigned number is read of its numerals, and of nothing else. -/
theorem readUInt32_eq_ok_iff {cs : List Char} {w : UInt32} :
    readUInt32 cs = .ok w ↔ Numeral cs w.toNat := by
  have hread : readUInt32 cs = .ok w ↔ readNat 0xFFFFFFFF cs = .ok w.toNat := by
    unfold readUInt32
    cases hnat : readNat 0xFFFFFFFF cs with
    | error fault =>
      constructor
      · rintro ⟨⟩
      · rintro ⟨⟩
    | ok n =>
      have hle := (readNat_eq_ok_iff.mp hnat).2
      have htoNat : (UInt32.ofNat n).toNat = n := by
        rw [UInt32.toNat_ofNat']
        omega
      constructor
      · intro h
        cases h
        rw [htoNat]
      · intro h
        cases h
        exact congrArg Except.ok UInt32.ofNat_toNat
  rw [hread, readNat_eq_ok_iff]
  constructor
  · rintro ⟨h, -⟩
    exact h
  · intro h
    have hlt := w.toNat_lt
    exact ⟨h, by omega⟩

/-- The text is a decimal numeral with this value, with or without a sign. -/
inductive SignedNumeral : List Char → Int → Prop
  | unsigned {cs : List Char} {n : Nat} (h : Numeral cs n) : SignedNumeral cs n
  | plus {cs : List Char} {n : Nat} (h : Numeral cs n) : SignedNumeral ('+' :: cs) n
  | minus {cs : List Char} {n : Nat} (h : Numeral cs n) : SignedNumeral ('-' :: cs) (-n)

/-- The number is a signed 64-bit number. -/
def InInt64 (i : Int) : Prop :=
  -0x8000000000000000 ≤ i ∧ i < 0x8000000000000000

instance (i : Int) : Decidable (InInt64 i) :=
  inferInstanceAs (Decidable (_ ∧ _))

/-- The digits after a sign are read exactly if the number is in range. -/
theorem readMagnitude_eq_ok_iff {cs : List Char} {negative : Bool} {i : Int} :
    readNat 0xFFFFFFFFFFFFFFFF cs >>= checkInt64 negative = .ok i ↔
      ∃ n : Nat, Numeral cs n ∧ i = (if negative then -(n : Int) else n) ∧ InInt64 i := by
  unfold InInt64
  constructor
  · intro h
    cases hnat : readNat 0xFFFFFFFFFFFFFFFF cs with
    | error fault =>
      rw [hnat] at h
      cases h
    | ok n =>
      rw [hnat] at h
      refine ⟨n, (readNat_eq_ok_iff.mp hnat).1, ?_⟩
      have hcheck : checkInt64 negative n = .ok i := h
      unfold checkInt64 at hcheck
      cases negative with
      | true =>
        simp only [if_true] at hcheck ⊢
        split at hcheck
        · cases hcheck
          omega
        · cases hcheck
      | false =>
        simp only [Bool.false_eq_true, if_false] at hcheck ⊢
        split at hcheck
        · cases hcheck
          omega
        · cases hcheck
  · rintro ⟨n, hn, rfl, hlow, hhigh⟩
    have hread : readNat 0xFFFFFFFFFFFFFFFF cs = .ok n := by
      refine readNat_eq_ok_iff.mpr ⟨hn, ?_⟩
      cases negative <;> simp at hlow hhigh <;> omega
    rw [hread]
    show checkInt64 negative n = _
    unfold checkInt64
    cases negative with
    | true =>
      simp only [if_true] at hlow hhigh ⊢
      rw [if_pos (by omega)]
    | false =>
      simp only [Bool.false_eq_true, if_false] at hlow hhigh ⊢
      rw [if_pos (by omega)]

/-- A signed number is read exactly if it is a numeral in range. -/
theorem readInt64Digits_eq_ok_iff {cs : List Char} {i : Int} :
    readInt64Digits cs = .ok i ↔ SignedNumeral cs i ∧ InInt64 i := by
  have hsign : ∀ {c : Char} {cs : List Char} {n : Nat}, c.isDigit = false →
      ¬ Numeral (c :: cs) n := by
    intro c cs n hc h
    have htrue := h.digits c List.mem_cons_self
    rw [hc] at htrue
    cases htrue
  unfold readInt64Digits
  split
  · next cs =>
    rw [readMagnitude_eq_ok_iff]
    constructor
    · rintro ⟨n, hn, rfl, hrange⟩
      exact ⟨.minus hn, hrange⟩
    · rintro ⟨h, hrange⟩
      cases h with
      | unsigned h => exact absurd h (hsign (by decide))
      | minus h => exact ⟨_, h, rfl, hrange⟩
  · next cs =>
    rw [readMagnitude_eq_ok_iff]
    constructor
    · rintro ⟨n, hn, rfl, hrange⟩
      exact ⟨.plus hn, hrange⟩
    · rintro ⟨h, hrange⟩
      cases h with
      | unsigned h => exact absurd h (hsign (by decide))
      | plus h => exact ⟨_, h, rfl, hrange⟩
  · next hminus hplus =>
    rw [readMagnitude_eq_ok_iff]
    constructor
    · rintro ⟨n, hn, rfl, hrange⟩
      exact ⟨.unsigned hn, hrange⟩
    · rintro ⟨h, hrange⟩
      cases h with
      | unsigned h => exact ⟨_, h, rfl, hrange⟩
      | plus h => exact absurd rfl (hplus _)
      | minus h => exact absurd rfl (hminus _)

/-- A signed number is read of its numerals, and of nothing else. -/
theorem readInt64_eq_ok_iff {cs : List Char} {i : Int} :
    readInt64 cs = .ok i ↔ SignedNumeral cs i ∧ InInt64 i := by
  rw [← readInt64Digits_eq_ok_iff]
  unfold readInt64
  cases readInt64Digits cs with
  | error fault =>
    constructor
    · rintro ⟨⟩
    · rintro ⟨⟩
  | ok n =>
    constructor
    · rintro ⟨⟩
      rfl
    · rintro ⟨⟩
      rfl

/-! ## Writing numbers -/

/-- A number in decimal. -/
def decimal : Int → List Char
  | .ofNat n => Nat.toDigits 10 n
  | .negSucc n => '-' :: Nat.toDigits 10 (n + 1)

/-- The decimal digits of a number are a numeral for it. -/
theorem numeral_toDigits (n : Nat) : Numeral (Nat.toDigits 10 n) n where
  ne_nil := Nat.toDigits_ne_nil
  digits _ hc := Nat.isDigit_of_mem_toDigits (by decide) (by decide) hc
  value := Nat.ofDigitChars_ten_toDigits

/-- A number in decimal is a signed numeral for it. -/
theorem signedNumeral_decimal (i : Int) : SignedNumeral (decimal i) i := by
  cases i with
  | ofNat n => exact .unsigned (numeral_toDigits n)
  | negSucc n => exact .minus (numeral_toDigits (n + 1))

/-- A digit is not blank. -/
theorem isBlank_of_isDigit {c : Char} (h : c.isDigit = true) : isBlank c = false := by
  have hrange : 48 ≤ c.toNat ∧ c.toNat ≤ 57 := by
    simpa [Char.isDigit, UInt32.le_iff_toNat_le] using h
  have hspace : c ≠ ' ' := by
    rintro rfl
    cases h
  simp only [isBlank, Bool.or_eq_false_iff, Bool.and_eq_false_iff, beq_eq_false_iff_ne,
    decide_eq_false_iff_not]
  refine ⟨⟨⟨⟨⟨⟨⟨⟨⟨⟨hspace, ?_⟩, ?_⟩, ?_⟩, ?_⟩, ?_⟩, ?_⟩, ?_⟩, ?_⟩, ?_⟩, ?_⟩ <;> omega

/-- A numeral is one word. -/
theorem Numeral.isWord {cs : List Char} {n : Nat} (h : Numeral cs n) : IsWord cs where
  ne_nil := h.ne_nil
  solid c hc := isBlank_of_isDigit (h.digits c hc)

/-- A number in decimal is one word. -/
theorem isWord_decimal (i : Int) : IsWord (decimal i) := by
  cases i with
  | ofNat n => exact (numeral_toDigits n).isWord
  | negSucc n =>
    constructor
    · exact List.cons_ne_nil _ _
    · intro c hc
      rcases List.mem_cons.mp hc with rfl | hc
      · decide
      · exact (numeral_toDigits (n + 1)).isWord.solid c hc

end Text

end ShaderStage
