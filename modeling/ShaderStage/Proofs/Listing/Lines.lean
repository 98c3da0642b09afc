import ShaderStage.Proofs.Decoding
import ShaderStage.Proofs.Listing.Words

/-! # Lines of a listing

How the operands of an instruction are written is a table, so what a line tells about an instruction
is read off the table as well: the operands that are shown one by one, the result, and what remains.
An instruction whose hidden operands are zero, and of which nothing else is left out, is told by its
line. A listing of such instructions tells the whole module.

* `Opcode.clear_form`: every form of the table is clear;
* `Instruction.Shown.eq_of_line`: a line that shows all tells the instruction;
* `Draft.eq_of_text`: a listing of such lines tells the module. -/

namespace ShaderStage

/-! ## Operands -/

/-- Words can be told by the texts they have in this style. -/
def OperandStyle.Clear : OperandStyle → Prop
  | .named names => names.Clear
  | _ => True

instance (style : OperandStyle) : Decidable style.Clear :=
  match style with
  | .id => inferInstanceAs (Decidable True)
  | .number => inferInstanceAs (Decidable True)
  | .named names => inferInstanceAs (Decidable names.Clear)

theorem OperandStyle.clear_id : OperandStyle.id.Clear :=
  trivial

/-- A clear style tells the operand. -/
theorem OperandStyle.Clear.injective {style : OperandStyle} (h : style.Clear) :
    Function.Injective style.render := by
  intro v w heq
  cases style with
  | id => exact UInt32.toNat_inj.mp (toString_injective ((String.append_right_inj _).mp heq))
  | number => exact UInt32.toNat_inj.mp (toString_injective heq)
  | named names => exact Enumerant.Clear.injective h heq

/-- A clear style writes plainly. -/
theorem OperandStyle.Clear.plain_render {style : OperandStyle} (h : style.Clear) (w : Word) :
    Plain (style.render w) := by
  cases style with
  | id => exact Plain.append (by decide) (plain_toString _)
  | number => exact plain_toString _
  | named names => exact Enumerant.Clear.plain_name h w

namespace Item

/-- The operand that an item shows. -/
def index? : Item → Option Nat
  | .operand index _ => some index
  | .word _ => none

/-- The item is a word, and the operand it shows, if any, is among those that must be there. -/
def Clear (need : Nat) : Item → Prop
  | .operand index style => index < need ∧ style.Clear
  | .word text => Plain text

instance (need : Nat) (item : Item) : Decidable (item.Clear need) :=
  match item with
  | .operand index style => inferInstanceAs (Decidable (index < need ∧ style.Clear))
  | .word text => inferInstanceAs (Decidable (Plain text))

variable {need : Nat} {operands operands' : List Word}

/-- A clear item is written plainly. -/
theorem Clear.plain_of_render? {item : Item} (h : item.Clear need) {w : String}
    (hw : item.render? operands = some w) : Plain w := by
  cases item with
  | operand index style =>
    obtain ⟨operand, -, rfl⟩ := Option.map_eq_some_iff.mp hw
    exact h.2.plain_render operand
  | word text =>
    cases hw
    exact h

/-- The operands that items show can be told, and so can what follows the items. -/
theorem filterMap_render?_inj {items : List Item} (hitems : ∀ item ∈ items, item.Clear need)
    (hneed : need ≤ operands.length) (hneed' : need ≤ operands'.length) {rest rest' : List String}
    (h : items.filterMap (render? operands) ++ rest =
      items.filterMap (render? operands') ++ rest') :
    (∀ k ∈ items.filterMap index?, operands[k]? = operands'[k]?) ∧ rest = rest' := by
  induction items with
  | nil => exact ⟨nofun, h⟩
  | cons item items ih =>
    obtain ⟨hfirst, hothers⟩ := List.forall_mem_cons.mp hitems
    cases item with
    | word text =>
      exact ih hothers (List.cons.inj h).2
    | operand index style =>
      obtain ⟨hindex, hstyle⟩ := hfirst
      -- Both lists are long enough for the operand to be shown.
      have hget : operands[index]? = some operands[index] := List.getElem?_eq_getElem _
      have hget' : operands'[index]? = some operands'[index] := List.getElem?_eq_getElem _
      simp only [List.filterMap_cons, render?, hget, hget', Option.map_some, List.cons_append,
        List.cons.injEq] at h
      obtain ⟨hshown, hrest⟩ := ih hothers h.2
      refine ⟨?_, hrest⟩
      rw [show (operand index style :: items).filterMap index? =
        index :: items.filterMap index? from rfl, List.forall_mem_cons]
      refine ⟨?_, hshown⟩
      rw [hget, hget', hstyle.injective h.1]

end Item

namespace Remainder

/-- The texts of the remaining operands can be told apart. -/
def Clear (start : Nat) : Remainder → Prop
  | .all style => style.Clear
  | .parameters decoration => decoration < start
  | _ => True

instance (start : Nat) (r : Remainder) : Decidable (r.Clear start) :=
  match r with
  | .all style => inferInstanceAs (Decidable style.Clear)
  | .parameters decoration => inferInstanceAs (Decidable (decoration < start))
  | .omitted => inferInstanceAs (Decidable True)
  | .string => inferInstanceAs (Decidable True)
  | .stringAndIds => inferInstanceAs (Decidable True)

/-- The remaining operands are of the form that is shown, and nothing of them is left out. -/
def Shows (operands : List Word) (start : Nat) : Remainder → Prop
  | .omitted => operands.drop start = []
  | .all _ => True
  | .string => ∃ text, NulFree text ∧ operands.drop start = Literal.ofString text
  | .stringAndIds =>
    ∃ text ids, NulFree text ∧ operands.drop start = Literal.ofString text ++ ids
  | .parameters decoration =>
    operands[decoration]? = some Decoration.builtIn → (operands.drop start).length ≤ 1

variable {r : Remainder} {start : Nat} {operands operands' : List Word}

/-- A text is written in quotes, and the ids after it one by one. -/
theorem render_string {text : String} (htext : NulFree text) {ids : List Id}
    (h : operands.drop start = Literal.ofString text ++ ids) :
    stringAndIds.render operands start =
      Text.quote text :: ids.map OperandStyle.id.render := by
  have hids : operands.drop (start + (Literal.ofString text).length) = ids := by
    rw [← List.drop_drop, h, List.drop_left]
  simp only [render, h, Literal.decode_ofString_append htext, Text.quoteBytes_bytesOf, hids]

/-- The style of the parameters of a decoration. -/
def parameterStyle (operands : List Word) (decoration : Nat) : OperandStyle :=
  if operands[decoration]? = some Decoration.builtIn then .named BuiltInNumber.names else .number

/-- Whatever is decorated, parameters are written clearly. -/
theorem clear_parameterStyle (operands : List Word) (decoration : Nat) :
    (parameterStyle operands decoration).Clear := by
  unfold parameterStyle
  split
  · show BuiltInNumber.names.Clear
    decide
  · trivial

/-- Parameters are written one by one. -/
theorem render_parameters {decoration : Nat}
    (h : (parameters decoration).Shows operands start) :
    (parameters decoration).render operands start =
      (operands.drop start).map (parameterStyle operands decoration).render := by
  unfold Shows at h
  unfold parameterStyle
  by_cases hbuiltIn : operands[decoration]? = some Decoration.builtIn
  · have hlength := h hbuiltIn
    cases hdrop : operands.drop start with
    | nil => simp [render, hdrop]
    | cons number rest =>
      -- A built-in is the only parameter of its decoration.
      rw [hdrop, List.length_cons] at hlength
      obtain rfl : rest = [] := List.length_eq_zero_iff.mp (by omega)
      simp [render, hdrop, hbuiltIn, OperandStyle.render]
  · cases hdrop : operands.drop start <;> simp [render, hdrop, hbuiltIn]

/-- The remaining operands can be told by what is shown of them. -/
theorem drop_eq_of_render (hclear : r.Clear start) (hshows : r.Shows operands start)
    (hshows' : r.Shows operands' start) (htake : operands.take start = operands'.take start)
    (h : r.render operands start = r.render operands' start) :
    operands.drop start = operands'.drop start := by
  cases r with
  | omitted => rw [hshows, hshows']
  | all style => exact List.map_injective_iff.mpr hclear.injective h
  | string =>
    obtain ⟨text, htext, hdrop⟩ := hshows
    obtain ⟨text', htext', hdrop'⟩ := hshows'
    simp only [render, hdrop, hdrop', Literal.decode_ofString htext, Literal.decode_ofString htext',
      Text.quoteBytes_bytesOf, List.cons.injEq, and_true] at h
    rw [hdrop, hdrop', Text.quote_injective h]
  | stringAndIds =>
    obtain ⟨text, ids, htext, hdrop⟩ := hshows
    obtain ⟨text', ids', htext', hdrop'⟩ := hshows'
    rw [render_string htext hdrop, render_string htext' hdrop', List.cons.injEq] at h
    have hids : ids = ids' :=
      List.map_injective_iff.mpr OperandStyle.clear_id.injective h.2
    rw [hdrop, hdrop', Text.quote_injective h.1, hids]
  | parameters decoration =>
    -- The decoration stands before its parameters, so it gives both lists the same style.
    have hdecoration : operands[decoration]? = operands'[decoration]? := by
      rw [← List.getElem?_take_of_lt hclear, htake, List.getElem?_take_of_lt hclear]
    have hstyle : parameterStyle operands' decoration = parameterStyle operands decoration := by
      rw [parameterStyle, ← hdecoration, parameterStyle]
    rw [render_parameters hshows, render_parameters hshows', hstyle] at h
    exact List.map_injective_iff.mpr (clear_parameterStyle operands decoration).injective h

/-- What is shown of the remaining operands is made of words. -/
theorem isWord_of_mem_render (hclear : r.Clear start) (hshows : r.Shows operands start) {w : String}
    (hw : w ∈ r.render operands start) : IsWord w := by
  have hmap : ∀ {style : OperandStyle} {ws : List Word}, style.Clear → w ∈ ws.map style.render →
      IsWord w := by
    intro style ws hstyle hmem
    obtain ⟨v, -, rfl⟩ := List.mem_map.mp hmem
    exact .plain (hstyle.plain_render v)
  cases r with
  | omitted => cases hw
  | all style => exact hmap hclear hw
  | string =>
    obtain ⟨text, htext, hdrop⟩ := hshows
    simp only [render, hdrop, Literal.decode_ofString htext, Text.quoteBytes_bytesOf,
      List.mem_singleton] at hw
    rw [hw]
    exact .quoted text
  | stringAndIds =>
    obtain ⟨text, ids, htext, hdrop⟩ := hshows
    rw [render_string htext hdrop] at hw
    rcases List.mem_cons.mp hw with rfl | hmem
    · exact .quoted text
    · exact hmap OperandStyle.clear_id hmem
  | parameters decoration =>
    rw [render_parameters hshows] at hw
    exact hmap (clear_parameterStyle operands decoration) hw

end Remainder

/-! ## Instructions -/

namespace Opcode

/-- Where the result stands among the operands. -/
def Shape.position : Shape → Option Nat
  | .noResult => none
  | .result => some 0
  | .typedResult => some 1

/-- The operands that a line does not show. -/
def hidden (op : Opcode) : List Nat :=
  (List.range op.form.start).filter fun k =>
    op.shape.position ≠ some k ∧ k ∉ op.form.items.filterMap Item.index?

end Opcode

/-- What the form shows can be read again. -/
structure Form.Clear (f : Form) : Prop where
  items : ∀ item ∈ f.items, item.Clear f.need
  remainder : f.remainder.Clear f.start

instance (f : Form) : Decidable f.Clear :=
  decidable_of_iff ((∀ item ∈ f.items, item.Clear f.need) ∧ f.remainder.Clear f.start)
    ⟨fun h => ⟨h.1, h.2⟩, fun h => ⟨h.items, h.remainder⟩⟩

/-- Every form is clear. -/
theorem Opcode.clear_form (op : Opcode) : op.form.Clear := by
  have htable : ∀ e ∈ Opcode.forms, e.2.Clear := by decide
  unfold Opcode.form
  cases hop : Opcode.forms.lookup op with
  | some f => exact htable _ (mem_of_lookup hop)
  | none =>
    show op.plainForm.Clear
    unfold Opcode.plainForm
    split <;> decide

namespace Instruction

theorem resultId_eq (i : Instruction) :
    i.resultId = i.opcode.shape.position.bind (i.operands[·]?) := by
  unfold resultId
  cases i.opcode.shape <;> rcases i.operands with _ | ⟨a, _ | ⟨b, rest⟩⟩ <;> rfl

/-- A line says all about the instruction: its operands are those that it must have, the hidden
ones are zero, and those that remain are of the form that is shown. -/
structure Shown (i : Instruction) : Prop where
  need : i.opcode.form.need ≤ i.operands.length
  hidden : ∀ k ∈ i.opcode.hidden, i.operands[k]? = some 0
  remainder : i.opcode.form.remainder.Shows i.operands i.opcode.form.start

/-- The words of a line. -/
def tokens (i : Instruction) : List String :=
  (i.resultId.toList.flatMap fun id => [OperandStyle.id.render id, "="]) ++
    i.opcode.mnemonic :: i.opcode.form.render i.operands

variable {i j : Instruction}

/-- What is shown is the items and the remainder. -/
theorem Shown.render_eq (h : i.Shown) : i.opcode.form.render i.operands =
    i.opcode.form.items.filterMap (Item.render? i.operands) ++
      i.opcode.form.remainder.render i.operands i.opcode.form.start :=
  if_neg (Nat.not_lt.mpr h.need)

/-- Every token of a line that is shown is one word. -/
theorem Shown.isWord (h : i.Shown) : ∀ w ∈ i.tokens, IsWord w := by
  intro w hw
  rcases List.mem_append.mp hw with hresult | hbody
  · obtain ⟨id, -, hid⟩ := List.mem_flatMap.mp hresult
    rcases List.mem_pair.mp hid with rfl | rfl
    · exact .plain (OperandStyle.clear_id.plain_render id)
    · exact .plain (by decide)
  rcases List.mem_cons.mp hbody with rfl | hoperand
  · exact .plain i.opcode.plain_mnemonic
  rw [h.render_eq] at hoperand
  rcases List.mem_append.mp hoperand with hitem | hrest
  · obtain ⟨item, hmem, hrender⟩ := List.mem_filterMap.mp hitem
    exact .plain ((i.opcode.clear_form.items item hmem).plain_of_render? hrender)
  · exact Remainder.isWord_of_mem_render i.opcode.clear_form.remainder h.remainder hrest

/-- The operands before the remaining ones can be told by the result and by what is shown. -/
theorem Shown.take_eq (hi : i.Shown) (hj : j.Shown) (hop : i.opcode = j.opcode)
    (hresult : i.resultId = j.resultId)
    (hitems : ∀ k ∈ i.opcode.form.items.filterMap Item.index?, i.operands[k]? = j.operands[k]?) :
    i.operands.take i.opcode.form.start = j.operands.take i.opcode.form.start := by
  refine List.ext_getElem? fun k => ?_
  by_cases hk : k < i.opcode.form.start
  · -- an operand in front of the rest is the result, or it is shown, or it is hidden
    rw [List.getElem?_take_of_lt hk, List.getElem?_take_of_lt hk]
    by_cases hposition : i.opcode.shape.position = some k
    · rw [resultId_eq, resultId_eq, ← hop, hposition] at hresult
      exact hresult
    by_cases hitem : k ∈ i.opcode.form.items.filterMap Item.index?
    · exact hitems k hitem
    have hhidden : k ∈ i.opcode.hidden :=
      List.mem_filter.mpr ⟨List.mem_range.mpr hk, decide_eq_true ⟨hposition, hitem⟩⟩
    rw [hi.hidden k hhidden, hj.hidden k (hop ▸ hhidden)]
  · have hle := Nat.le_of_not_lt hk
    rw [List.getElem?_take_eq_none hle, List.getElem?_take_eq_none hle]

/-- The head of a line tells the result and the opcode. -/
theorem head_of_tokens (h : i.tokens = j.tokens) : i.resultId = j.resultId ∧
    i.opcode = j.opcode ∧
    i.opcode.form.render i.operands = j.opcode.form.render j.operands := by
  have hid : ∀ (id : Id) (op : Opcode), OperandStyle.id.render id ≠ op.mnemonic := by
    intro id op heq
    -- An id starts with a mark that no mnemonic has.
    have hmark : '%' ∈ op.mnemonic.toList := by
      rw [← heq]
      simp [OperandStyle.render]
    exact absurd (Opcode.lt_of_mem_mnemonic hmark) (by decide)
  unfold tokens at h
  cases hi : i.resultId with
  | none =>
    cases hj : j.resultId with
    | none =>
      rw [hi, hj] at h
      obtain ⟨hop, hrest⟩ := List.cons.inj h
      exact ⟨rfl, Opcode.mnemonic_injective hop, hrest⟩
    | some id =>
      rw [hi, hj] at h
      exact absurd (List.cons.inj h).1.symm (hid id _)
  | some id =>
    cases hj : j.resultId with
    | none =>
      rw [hi, hj] at h
      exact absurd (List.cons.inj h).1 (hid id _)
    | some id' =>
      rw [hi, hj] at h
      obtain ⟨hresult, hrest⟩ := List.cons.inj h
      obtain ⟨hop, hrest⟩ := List.cons.inj (List.cons.inj hrest).2
      have hresult := OperandStyle.clear_id.injective hresult
      exact ⟨congrArg some hresult, Opcode.mnemonic_injective hop, hrest⟩

/-- Instructions with the same words are the same. -/
theorem Shown.eq_of_tokens (hi : i.Shown) (hj : j.Shown) (h : i.tokens = j.tokens) : i = j := by
  obtain ⟨hresult, hop, hrender⟩ := head_of_tokens h
  have hclear := i.opcode.clear_form
  have hneed := hj.need
  have hremainder := hj.remainder
  rw [hi.render_eq, hj.render_eq, ← hop] at hrender
  rw [← hop] at hneed hremainder
  obtain ⟨hitems, hrest⟩ :=
    Item.filterMap_render?_inj hclear.items hi.need hneed hrender
  have htake := hi.take_eq hj hop hresult hitems
  have hdrop :=
    Remainder.drop_eq_of_render hclear.remainder hi.remainder hremainder htake hrest
  have hoperands : i.operands = j.operands := by
    rw [← List.take_append_drop i.opcode.form.start i.operands, htake, hdrop,
      List.take_append_drop]
  cases i
  cases j
  cases hop
  cases hoperands
  rfl

/-! ## Lines -/

theorem trailed_intercalate (w : String) (ws : List String) :
    trailed (w :: ws) = (" ".intercalate (w :: ws)).toList ++ [' '] := by
  induction ws generalizing w with
  | nil => simp [trailed]
  | cons w' ws ih =>
    rw [trailed_cons, ih, String.intercalate_cons_cons]
    simp

/-- A line is its tokens with blanks between them. -/
theorem trailed_tokens (i : Instruction) : trailed i.tokens = i.render.toList ++ [' '] := by
  unfold tokens render body
  cases i.resultId with
  | none => exact trailed_intercalate _ _
  | some id =>
    rw [Option.toList_some, List.flatMap_singleton, List.cons_append, List.singleton_append,
      trailed_cons, trailed_cons, trailed_intercalate]
    simp

/-- A line does not start with a blank, once it is no longer indented. -/
theorem head?_render_ne (i : Instruction) : i.render.toList.head? ≠ some ' ' := by
  unfold render body
  cases i.resultId with
  | some id => simp [OperandStyle.render]
  | none =>
    cases hchars : i.opcode.mnemonic.toList with
    | nil => exact absurd (String.toList_eq_nil_iff.mp hchars) i.opcode.mnemonic_ne_empty
    | cons c cs =>
      have hblank : c ≠ ' ' := by
        rintro rfl
        have hmem : ' ' ∈ i.opcode.mnemonic.toList := by
          rw [hchars]
          exact List.mem_cons_self
        exact i.opcode.plain_mnemonic.not_mem (by decide) hmem
      cases i.opcode.form.render i.operands <;>
        simpa [String.intercalate_cons_cons, hchars] using hblank

/-- A line is moved right, and nothing else. -/
theorem toList_line (i : Instruction) :
    ∃ n, i.line.toList = List.replicate n ' ' ++ i.render.toList := by
  unfold line
  exact ⟨_, by rw [String.toList_append, String.toList_ofList]⟩

/-- Without the blanks in front a line is what is rendered. -/
theorem dropWhile_line (i : Instruction) : i.line.toList.dropWhile (· = ' ') = i.render.toList := by
  obtain ⟨n, hline⟩ := i.toList_line
  have hhead := i.head?_render_ne
  rw [hline, List.dropWhile_append_of_pos fun c hc => by simp [List.eq_of_mem_replicate hc]]
  cases hrender : i.render.toList with
  | nil => rfl
  | cons c cs =>
    rw [hrender, List.head?_cons, ne_eq, Option.some.injEq] at hhead
    simp [hhead]

/-- A line that shows all tells the instruction. -/
theorem Shown.eq_of_line (hi : i.Shown) (hj : j.Shown) (h : i.line = j.line) : i = j := by
  have hrender := congrArg (fun text : String => text.toList.dropWhile (· = ' ')) h
  simp only [dropWhile_line] at hrender
  refine hi.eq_of_tokens hj (trailed_inj hi.isWord hj.isWord ?_)
  rw [trailed_tokens, trailed_tokens, hrender]

/-- No line ends inside of a line. -/
theorem Shown.newline_not_mem (hi : i.Shown) : '\n' ∉ i.line.toList := by
  obtain ⟨n, hline⟩ := i.toList_line
  intro hnewline
  rw [hline, List.mem_append] at hnewline
  rcases hnewline with hindent | hrender
  · cases List.eq_of_mem_replicate hindent
  have htrailed : '\n' ∈ trailed i.tokens := by
    rw [trailed_tokens]
    exact List.mem_append_left _ hrender
  obtain ⟨w, hw, hmem⟩ := List.mem_flatMap.mp htrailed
  rcases List.mem_append.mp hmem with hword | hblank
  · exact (hi.isWord w hw).newline_not_mem hword
  · cases List.mem_singleton.mp hblank

end Instruction

/-! ## Modules -/

/-- Lines can be told by the text that they make. -/
theorem eq_of_join_lines {ls ls' : List String} (hls : ∀ l ∈ ls, '\n' ∉ l.toList)
    (hls' : ∀ l ∈ ls', '\n' ∉ l.toList)
    (h : String.join (ls.map (· ++ "\n")) = String.join (ls'.map (· ++ "\n"))) : ls = ls' := by
  have hcons : ∀ (l : String) (ls : List String),
      (String.join ((l :: ls).map (· ++ "\n"))).toList =
        l.toList ++ '\n' :: (String.join (ls.map (· ++ "\n"))).toList := by
    intro l ls
    simp
  induction ls generalizing ls' with
  | nil =>
    cases ls' with
    | nil => rfl
    | cons l' ls' =>
      have htext := congrArg String.toList h
      rw [hcons] at htext
      simp at htext
  | cons l ls ih =>
    cases ls' with
    | nil =>
      have htext := congrArg String.toList h
      rw [hcons] at htext
      simp at htext
    | cons l' ls' =>
      obtain ⟨hfirst, hrest⟩ := List.forall_mem_cons.mp hls
      obtain ⟨hfirst', hrest'⟩ := List.forall_mem_cons.mp hls'
      have htext := congrArg String.toList h
      rw [hcons, hcons] at htext
      -- No line has a newline in it, so the first newline of both texts ends the first line.
      have hline := congrArg (nameBefore '\n') htext
      have hlines := congrArg (restAfter '\n') htext
      rw [nameBefore_append hfirst, nameBefore_append hfirst'] at hline
      rw [restAfter_append hfirst, restAfter_append hfirst'] at hlines
      rw [hline, ih hrest hrest' (String.toList_inj.mp hlines)]

/-- The version is written as two numbers. -/
theorem versionText_word (v : Version) (magic generator bound schema : Word) :
    Header.versionText ⟨magic, v.word, generator, bound, schema⟩ =
      toString v.major.toNat ++ "." ++ toString v.minor.toNat := by
  have hmajor := v.major.toNat_lt
  have hminor := v.minor.toNat_lt
  have hword : v.word.toNat = 0x10000 * v.major.toNat + 0x100 * v.minor.toNat := by
    rw [Version.word, UInt32.toNat_ofNat']
    omega
  have hhigh : (0x10000 * v.major.toNat + 0x100 * v.minor.toNat) / 0x10000 % 0x100 =
      v.major.toNat := by omega
  have hlow : (0x10000 * v.major.toNat + 0x100 * v.minor.toNat) / 0x100 % 0x100 =
      v.minor.toNat := by omega
  simp only [Header.versionText, hword, hhigh, hlow]
  rfl

/-- The first lines of a listing tell the version and the bound of the module. -/
theorem headerLines_inj {v v' : Version} {magic generator bound bound' schema : Word}
    (h : Module.headerLines ⟨magic, v.word, generator, bound, schema⟩ =
      Module.headerLines ⟨magic, v'.word, generator, bound', schema⟩) :
    v = v' ∧ bound = bound' := by
  have hpoint : ∀ n : Nat, '.' ∉ (toString n).toList := by
    intro n hmem
    cases isDigit_of_mem_toString hmem
  simp only [Module.headerLines, versionText_word, List.cons.injEq, String.append_right_inj,
    and_true, true_and] at h
  obtain ⟨hversion, hbound⟩ := h
  have hchars : (toString v.major.toNat).toList ++ '.' :: (toString v.minor.toNat).toList =
      (toString v'.major.toNat).toList ++ '.' :: (toString v'.minor.toNat).toList := by
    simpa using congrArg String.toList hversion
  have hmajor := congrArg (nameBefore '.') hchars
  have hminor := congrArg (restAfter '.') hchars
  rw [nameBefore_append (hpoint _), nameBefore_append (hpoint _)] at hmajor
  rw [restAfter_append (hpoint _), restAfter_append (hpoint _), String.toList_inj] at hminor
  have hmajor := UInt8.toNat_inj.mp (toString_injective hmajor)
  have hminor := UInt8.toNat_inj.mp (toString_injective hminor)
  refine ⟨?_, UInt32.toNat_inj.mp (toString_injective hbound)⟩
  cases v
  cases v'
  cases hmajor
  cases hminor
  rfl

namespace Draft

variable {d d' : Draft}

/-- No line ends inside of a line of the header. -/
theorem newline_not_mem_headerLines (d : Draft) :
    ∀ l ∈ Module.headerLines d.toModule.header, '\n' ∉ l.toList := by
  have hnumber : ∀ n : Nat, '\n' ∉ (toString n).toList := by
    intro n hmem
    cases isDigit_of_mem_toString hmem
  have hgenerator : '\n' ∉ (hex8 generatorNumber).toList := by decide
  simp only [Module.headerLines, toModule, versionText_word, List.forall_mem_cons,
    String.toList_append, List.mem_append, not_or]
  refine ⟨by decide, ⟨by decide, ⟨hnumber _, by decide⟩, hnumber _⟩, ⟨by decide, hgenerator⟩,
    ⟨by decide, hnumber _⟩, ⟨by decide, hnumber _⟩, List.forall_mem_nil _⟩

/-- A listing in which every line says all tells the module. -/
theorem eq_of_text (hd : ∀ i ∈ d.instructions, i.Shown) (hd' : ∀ i ∈ d'.instructions, i.Shown)
    (h : d.toModule.text = d'.toModule.text) :
    d.version = d'.version ∧ d.ids.next = d'.ids.next ∧ d.instructions = d'.instructions := by
  have hlines : ∀ {d : Draft}, (∀ i ∈ d.instructions, i.Shown) →
      ∀ l ∈ Module.headerLines d.toModule.header ++ d.toModule.instructions.map Instruction.line,
        '\n' ∉ l.toList := by
    intro d hd l hl
    rcases List.mem_append.mp hl with hheader | hline
    · exact d.newline_not_mem_headerLines l hheader
    · obtain ⟨i, hi, rfl⟩ := List.mem_map.mp hline
      rw [instructions_toModule] at hi
      exact (hd i hi).newline_not_mem
  have happend := eq_of_join_lines (hlines hd) (hlines hd') h
  obtain ⟨hheader, hbody⟩ := List.append_inj happend rfl
  obtain ⟨hversion, hbound⟩ := headerLines_inj hheader
  refine ⟨hversion, hbound, ?_⟩
  rw [instructions_toModule, instructions_toModule] at hbody
  have hlength : d.instructions.length = d'.instructions.length := by
    simpa using congrArg List.length hbody
  refine List.ext_getElem hlength fun k hk hk' => ?_
  have hline : d.instructions[k].line = d'.instructions[k].line := by
    simpa [hk, hk'] using congrArg (·[k]?) hbody
  exact (hd _ (List.getElem_mem hk)).eq_of_line (hd' _ (List.getElem_mem hk')) hline

end Draft

end ShaderStage
