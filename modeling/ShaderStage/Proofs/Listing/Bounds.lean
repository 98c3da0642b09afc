import Mathlib.Data.Nat.Digits.Defs
import ShaderStage.Proofs.Listing.Lines
import ShaderStage.Proofs.Literals

/-! # Listings of broken instructions

A decoded instruction may have any operands, too few of them included. Here operands are fetched one
by one and a fetch beyond the last operand makes the whole text fail. No text fails, so a form asks
for an operand only if it has made sure that the operand is there. A result, whatever its number, is
short enough for the mnemonics to stand in one column.

* `Instruction.fetchText_eq`: no fetch fails;
* `listing_in_bounds`: what a listing makes of any module, broken instructions included. -/

namespace ShaderStage

/-! ## Fetching operands -/

/-- The operands from `start` on, fetched one after the other. -/
def fetchFrom (operands : List Word) (start : Nat) : Option (List Word) :=
  (List.range' start (operands.length - start)).mapM (operands[·]?)

/-- The string that starts at operand `start` and the number of the operand after it. The string has
to start, and to end, within the operands or right after them. -/
def fetchString (operands : List Word) (start : Nat) : Option (List UInt8 × Nat) := do
  -- A string may start where the operands end, and is empty then.
  let words ← if start ≤ operands.length then fetchFrom operands start else none
  let (bytes, count) := Literal.decode words
  if start + count ≤ operands.length then some (bytes, start + count) else none

/-- The words that a remainder contributes to a line, from fetched operands. -/
def Remainder.fetch (operands : List Word) (start : Nat) : Remainder → Option (List String)
  | .omitted => some []
  | .all style => do
    let words ← fetchFrom operands start
    return words.map style.render
  | .string => do
    let (bytes, _) ← fetchString operands start
    return [Text.quoteBytes bytes]
  | .stringAndIds => do
    let (bytes, next) ← fetchString operands start
    let ids ← fetchFrom operands next
    return Text.quoteBytes bytes :: ids.map OperandStyle.id.render
  | .parameters decoration => do
    let found ← operands[decoration]?
    if found = Decoration.builtIn ∧ start < operands.length then
      let number ← operands[start]?
      return [BuiltInNumber.names.name number]
    else
      let numbers ← fetchFrom operands start
      return numbers.map OperandStyle.number.render

/-- The words that operands contribute to a line, from fetched operands. -/
def Form.fetch (f : Form) (operands : List Word) : Option (List String) := do
  if operands.length < f.need then
    return [truncatedMark]
  else
    let shown ← f.items.mapM (Item.render? operands)
    let rest ← f.remainder.fetch operands f.start
    return shown ++ rest

namespace Instruction

/-- The result, fetched if there are operands enough. -/
def fetchResultId (i : Instruction) : Option (Option Id) :=
  match i.opcode.shape with
  | .noResult => some none
  | .result => if 1 ≤ i.operands.length then (i.operands[0]?).map some else some none
  | .typedResult => if 2 ≤ i.operands.length then (i.operands[1]?).map some else some none

/-- The result type, fetched if there are operands enough. -/
def fetchResultType (i : Instruction) : Option (Option Id) :=
  match i.opcode.shape with
  | .typedResult => if 2 ≤ i.operands.length then (i.operands[0]?).map some else some none
  | _ => some none

/-- The text of an instruction, from fetched operands. -/
def fetchText (i : Instruction) : Option String := do
  let result ← i.fetchResultId
  let words ← i.opcode.form.fetch i.operands
  let body := " ".intercalate (i.opcode.mnemonic :: words)
  return match result with
    | some id => OperandStyle.id.render id ++ " = " ++ body
    | none => body

/-- The text of the instruction has a string in it, read from operand `start` on. -/
def ReadsString (i : Instruction) (start : Nat) : Prop :=
  i.opcode.form.need ≤ i.operands.length ∧ i.opcode.form.start = start ∧
    (i.opcode.form.remainder = .string ∨ i.opcode.form.remainder = .stringAndIds)

end Instruction

/-! ## No fetch fails -/

/-- A partial function that never fails on a list is a function on it. -/
theorem mapM_eq_some {α β : Type} {f : α → Option β} {g : α → β} {xs : List α}
    (h : ∀ x ∈ xs, f x = some (g x)) : xs.mapM f = some (xs.map g) := by
  induction xs with
  | nil => rfl
  | cons x rest ih =>
    obtain ⟨hx, hrest⟩ := List.forall_mem_cons.mp h
    rw [List.mapM_cons, hx, ih hrest]
    rfl

/-- Fetching the rest of the operands never fails. -/
theorem fetchFrom_eq (operands : List Word) (start : Nat) :
    fetchFrom operands start = some (operands.drop start) := by
  have hfetch : ∀ k ∈ List.range' start (operands.length - start),
      operands[k]? = some (operands[k]?.getD 0) := by
    intro k hk
    have hlt : k < operands.length := by
      have hrange := List.mem_range'_1.mp hk
      omega
    rw [List.getElem?_eq_getElem hlt, Option.getD_some]
  rw [fetchFrom, mapM_eq_some hfetch]
  -- What was fetched are the operands from `start` on, place by place.
  refine congrArg some (List.ext_getElem (by simp) fun k hk hk' => ?_)
  have hlt : start + k < operands.length := by
    rw [List.length_drop] at hk'
    omega
  simp [List.getElem?_eq_getElem hlt]

/-- A text ends with the operands at the latest. -/
theorem Literal.decode_snd_le (words : List Word) : (decode words).2 ≤ words.length := by
  induction words with
  | nil => exact Nat.le_refl 0
  | cons w rest ih =>
    rw [decode_cons]
    split
    · exact Nat.le_add_left 1 _
    · exact Nat.succ_le_succ ih

/-- So does a text that starts later. -/
theorem Literal.add_decode_le {operands : List Word} {start : Nat} (h : start ≤ operands.length) :
    start + (decode (operands.drop start)).2 ≤ operands.length := by
  have hle := decode_snd_le (operands.drop start)
  rw [List.length_drop] at hle
  omega

/-- Fetching a text never fails, from a start that exists. -/
theorem fetchString_eq {operands : List Word} {start : Nat} (h : start ≤ operands.length) :
    fetchString operands start = some ((Literal.decode (operands.drop start)).1,
      start + (Literal.decode (operands.drop start)).2) := by
  simp [fetchString, fetchFrom_eq, h, Literal.add_decode_le h]

/-- A string starts at most right after the operands that must be there, and a decoration is one of
them. -/
def Remainder.Within (need start : Nat) : Remainder → Prop
  | .string | .stringAndIds => start ≤ need
  | .parameters decoration => decoration < need
  | _ => True

instance (need start : Nat) (r : Remainder) : Decidable (r.Within need start) :=
  match r with
  | .omitted => inferInstanceAs (Decidable True)
  | .all _ => inferInstanceAs (Decidable True)
  | .string => inferInstanceAs (Decidable (start ≤ need))
  | .stringAndIds => inferInstanceAs (Decidable (start ≤ need))
  | .parameters decoration => inferInstanceAs (Decidable (decoration < need))

/-- Every form starts its remainder after the operands that it has made sure of. -/
theorem Opcode.within_form (op : Opcode) : op.form.remainder.Within op.form.need op.form.start := by
  have htable : ∀ e ∈ Opcode.forms, e.2.remainder.Within e.2.need e.2.start := by decide
  unfold Opcode.form
  cases hop : Opcode.forms.lookup op with
  | some f => exact htable _ (mem_of_lookup hop)
  | none =>
    show op.plainForm.remainder.Within op.plainForm.need op.plainForm.start
    unfold Opcode.plainForm
    split <;> decide

section

variable {need start : Nat} {operands : List Word}

/-- An item that was made sure of is rendered. -/
theorem Item.Clear.render?_eq {item : Item} (h : item.Clear need) (hneed : need ≤ operands.length) :
    item.render? operands = some ((item.render? operands).getD "") := by
  cases item with
  | word text => rfl
  | operand index style =>
    have hlt : index < operands.length := Nat.lt_of_lt_of_le h.1 hneed
    rw [render?, List.getElem?_eq_getElem hlt]
    rfl

/-- All items that were made sure of are rendered. -/
theorem Item.mapM_render? {items : List Item} (h : ∀ item ∈ items, item.Clear need)
    (hneed : need ≤ operands.length) :
    items.mapM (render? operands) = some (items.filterMap (render? operands)) := by
  have hshown : ∀ item ∈ items, item.render? operands = some ((item.render? operands).getD "") :=
    fun item hitem => (h item hitem).render?_eq hneed
  rw [mapM_eq_some hshown, List.filterMap_eq_map_iff_forall_eq_some.mpr hshown]

/-- Fetching what remains never fails. -/
theorem Remainder.Within.fetch_eq {r : Remainder} (h : r.Within need start)
    (hneed : need ≤ operands.length) : r.fetch operands start = some (r.render operands start) := by
  cases r with
  | omitted => rfl
  | all style => simp [fetch, render, fetchFrom_eq]
  | string =>
    have hstart : start ≤ operands.length := Nat.le_trans h hneed
    simp [fetch, render, fetchString_eq hstart]
  | stringAndIds =>
    have hstart : start ≤ operands.length := Nat.le_trans h hneed
    simp [fetch, render, fetchString_eq hstart, fetchFrom_eq]
  | parameters decoration =>
    -- The decoration is always there, its first parameter need not be.
    have hlt : decoration < operands.length := Nat.lt_of_lt_of_le h hneed
    have hget : operands[decoration]? = some operands[decoration] := List.getElem?_eq_getElem hlt
    unfold fetch render
    cases hdrop : operands.drop start with
    | nil =>
      have hstart : ¬ start < operands.length := Nat.not_lt.mpr (List.drop_eq_nil_iff.mp hdrop)
      simp [hget, hstart, fetchFrom_eq, hdrop]
    | cons number rest =>
      have hnumber : operands[start]? = some number := by
        rw [← List.head?_drop, hdrop, List.head?_cons]
      obtain ⟨hstart, rfl⟩ := List.getElem?_eq_some_iff.mp hnumber
      by_cases hbuiltIn : operands[decoration] = Decoration.builtIn
      · simp [hget, hbuiltIn, hstart]
      · simp [hget, hbuiltIn, fetchFrom_eq, hdrop]

end

/-- Fetching the operands of a form gives what rendering shows. -/
theorem Opcode.fetch_form (op : Opcode) (operands : List Word) :
    op.form.fetch operands = some (op.form.render operands) := by
  unfold Form.fetch Form.render
  split
  · rfl
  · next hneed =>
    have henough : op.form.need ≤ operands.length := Nat.le_of_not_lt hneed
    rw [Item.mapM_render? op.clear_form.items henough, op.within_form.fetch_eq henough]
    rfl

namespace Instruction

/-- Fetching the result never fails. -/
theorem fetchResultId_eq (i : Instruction) : i.fetchResultId = some i.resultId := by
  unfold fetchResultId resultId
  cases i.opcode.shape <;> rcases i.operands with _ | ⟨a, _ | ⟨b, rest⟩⟩ <;> simp

/-- Fetching the type of the result never fails. -/
theorem fetchResultType_eq (i : Instruction) : i.fetchResultType = some i.resultType := by
  unfold fetchResultType resultType
  cases i.opcode.shape <;> rcases i.operands with _ | ⟨a, _ | ⟨b, rest⟩⟩ <;> simp

/-- Fetching the whole text never fails. -/
theorem fetchText_eq (i : Instruction) : i.fetchText = some i.render := by
  unfold fetchText render body
  rw [fetchResultId_eq, Opcode.fetch_form]
  rfl

/-- A string that is shown takes operands that are there. -/
theorem ReadsString.split {i : Instruction} {start : Nat} (h : i.ReadsString start) :
    ∃ before text after, i.operands = before ++ text ++ after ∧ before.length = start ∧
      (i.literal start).2 = text.length := by
  obtain ⟨hneed, rfl, hstring⟩ := h
  have hwithin := i.opcode.within_form
  have hstart : i.opcode.form.start ≤ i.operands.length := by
    rcases hstring with hr | hr <;>
      · rw [hr] at hwithin
        exact Nat.le_trans hwithin hneed
  -- From here on only the place of the string matters, and no longer the form.
  generalize i.opcode.form.start = start at hstart ⊢
  have hliteral : (i.literal start).2 = (Literal.decode (i.operands.drop start)).2 := if_pos hstart
  have hcount := Literal.decode_snd_le (i.operands.drop start)
  rw [hliteral]
  generalize (Literal.decode (i.operands.drop start)).2 = count at hcount ⊢
  refine ⟨i.operands.take start, (i.operands.drop start).take count,
    (i.operands.drop start).drop count, ?_, List.length_take_of_le hstart, ?_⟩
  · rw [List.append_assoc, List.take_append_drop, List.take_append_drop]
  · rw [List.length_take_of_le hcount]

end Instruction

/-! ## The column of the mnemonics -/

/-- The first place in a text at which a part of it starts. -/
def firstIndex (part : List Char) : List Char → Option Nat
  | [] => if part = [] then some 0 else none
  | c :: rest => if part <+: c :: rest then some 0 else (firstIndex part rest).map (· + 1)

/-- A part is found after what does not have its first character. -/
theorem firstIndex_append {c : Char} {before : List Char} (h : c ∉ before)
    (part after : List Char) :
    firstIndex (c :: part) (before ++ (c :: part) ++ after) = some before.length := by
  induction before with
  | nil => exact if_pos (List.prefix_append _ _)
  | cons d rest ih =>
    rw [List.mem_cons, not_or] at h
    obtain ⟨hne, hrest⟩ := h
    have hno : ¬ c :: part <+: d :: (rest ++ (c :: part) ++ after) := by
      rintro ⟨more, hmore⟩
      exact hne (List.cons.inj hmore).1
    rw [List.cons_append, List.cons_append, firstIndex, if_neg hno, ih hrest]
    rfl

/-- An id takes eleven characters at most. -/
theorem length_render_id (id : Id) : (OperandStyle.id.render id).length ≤ 11 := by
  have hdigits : (toString id.toNat).length ≤ 10 :=
    Nat.repr_length id.toNat 10 (by decide) (Nat.lt_trans id.toNat_lt (by decide))
  show ("%" ++ toString id.toNat).length ≤ 11
  rw [String.length_append]
  exact Nat.add_le_add_left hdigits 1

/-- An id is written without blanks. -/
theorem blank_not_mem_render_id (id : Id) : ' ' ∉ (OperandStyle.id.render id).toList :=
  (OperandStyle.clear_id.plain_render id).not_mem (by decide)

namespace Instruction

variable {i : Instruction}

/-- A line with a result is moved right by what is left of the column. -/
theorem line_of_resultId {id : Id} (h : i.resultId = some id) :
    i.line =
      .ofList (List.replicate (14 - (OperandStyle.id.render id).length) ' ') ++ i.render := by
  have hlength : (OperandStyle.id.render id ++ " = ").length =
      (OperandStyle.id.render id).length + 3 := String.length_append _ _
  simp only [line, h, hlength, mnemonicColumn, Nat.reduceSubDiff]

/-- A line without a result is moved right by the whole column. -/
theorem line_of_no_resultId (h : i.resultId = none) :
    i.line = .ofList (List.replicate 17 ' ') ++ i.render := by
  simp [line, h, mnemonicColumn]

/-- The sign after a result is the first one in the line. -/
theorem firstIndex_render {id : Id} (h : i.resultId = some id) :
    firstIndex " = ".toList i.render.toList = some (OperandStyle.id.render id).length := by
  have hrender : i.render.toList =
      (OperandStyle.id.render id).toList ++ " = ".toList ++ i.body.toList := by
    simp only [render, h, String.toList_append]
  rw [hrender]
  exact firstIndex_append (blank_not_mem_render_id id) ['=', ' '] _

/-- The body of a line starts with the mnemonic. -/
theorem body_eq_mnemonic_append (i : Instruction) :
    ∃ rest, i.body.toList = i.opcode.mnemonic.toList ++ rest := by
  unfold body
  cases i.opcode.form.render i.operands with
  | nil => exact ⟨[], by simp⟩
  | cons w ws => exact ⟨_, by rw [String.intercalate_cons_cons, String.toList_append,
      String.toList_append, List.append_assoc]⟩

/-- A line is a lead of 17 characters, with the result at its end, and the body. -/
theorem line_eq_lead (i : Instruction) :
    ∃ lead, lead.length = 17 ∧ i.line.toList = lead ++ i.body.toList := by
  cases hid : i.resultId with
  | none =>
    refine ⟨List.replicate 17 ' ', List.length_replicate, ?_⟩
    rw [line_of_no_resultId hid, render, hid, String.toList_append, String.toList_ofList]
  | some id =>
    -- No result is too long for the padding to make up the difference.
    have hle := length_render_id id
    refine ⟨List.replicate (14 - (OperandStyle.id.render id).length) ' ' ++
      ((OperandStyle.id.render id).toList ++ " = ".toList), ?_, ?_⟩
    · have heq : " = ".toList.length = 3 := by decide
      rw [List.length_append, List.length_append, List.length_replicate, String.length_toList, heq]
      omega
    · simp only [line_of_resultId hid, render, hid, String.toList_append, String.toList_ofList,
        List.append_assoc]

end Instruction

/-- Each instruction has its line in the listing. -/
theorem Module.text_of_mem (m : Module) {i : Instruction} (h : i ∈ m.instructions) :
    ∃ before after : List String, m.text = .join ((before ++ i.line :: after).map (· ++ "\n")) := by
  obtain ⟨before, after, hsplit⟩ := List.append_of_mem h
  refine ⟨headerLines m.header ++ before.map Instruction.line, after.map Instruction.line, ?_⟩
  have hlines : m.instructions.map Instruction.line =
      before.map Instruction.line ++ i.line :: after.map Instruction.line := by
    rw [hsplit, List.map_append, List.map_cons]
  rw [text, hlines, List.append_assoc]

/-- Whatever its opcode and its operands, an instruction is listed within bounds. Its text, its
result and its result type are found from operands that are there, and a string in it takes operands
that are there. The sign after a result starts in one of the first twelve columns, so the result can
be moved right until it ends in column 14, and the mnemonic always starts in column 17. This line is
a line of the listing of every module with the instruction. -/
theorem listing_in_bounds (i : Instruction) :
    i.fetchText = some i.render ∧ i.fetchResultId = some i.resultId ∧
    i.fetchResultType = some i.resultType ∧
    (∀ start, i.ReadsString start →
      ∃ before text after, i.operands = before ++ text ++ after ∧ before.length = start ∧
        (i.literal start).2 = text.length) ∧
    (i.resultId.isSome → ∃ column ≤ 11,
      firstIndex " = ".toList i.render.toList = some column ∧
      i.line = .ofList (List.replicate (14 - column) ' ') ++ i.render) ∧
    (∃ lead rest, lead.length = 17 ∧ i.line.toList = lead ++ i.opcode.mnemonic.toList ++ rest) ∧
    ∀ m : Module, i ∈ m.instructions → ∃ before after : List String,
      m.text = .join ((before ++ i.line :: after).map (· ++ "\n")) := by
  refine ⟨i.fetchText_eq, i.fetchResultId_eq, i.fetchResultType_eq, fun _ h => h.split, ?_, ?_,
    fun m hm => m.text_of_mem hm⟩
  · intro hsome
    obtain ⟨id, hid⟩ := Option.isSome_iff_exists.mp hsome
    exact ⟨_, length_render_id id, Instruction.firstIndex_render hid,
      Instruction.line_of_resultId hid⟩
  · obtain ⟨lead, hlead, hline⟩ := i.line_eq_lead
    obtain ⟨rest, hbody⟩ := i.body_eq_mnemonic_append
    exact ⟨lead, rest, hlead, by rw [hline, hbody, List.append_assoc]⟩

/-- An entry point whose name is never closed, and a float type with the longest result there is and
no width. -/
theorem listing_in_bounds_broken :
    let entry : Instruction := ⟨Opcode.entryPoint, [0, 4, 0x6E69616D]⟩
    let float : Instruction := ⟨Opcode.typeFloat, [0xFFFFFFFF]⟩
    (entry.ReadsString 2 ∧
      ∃ before text after, entry.operands = before ++ text ++ after ∧ before.length = 2 ∧
        (entry.literal 2).2 = text.length) ∧
    (float.resultId.isSome ∧ ∃ column ≤ 11,
      firstIndex " = ".toList float.render.toList = some column ∧
      float.line = .ofList (List.replicate (14 - column) ' ') ++ float.render) := by
  intro entry float
  have hreads : entry.ReadsString 2 := ⟨by decide, by decide, by decide⟩
  have hresult : float.resultId.isSome := by decide
  exact ⟨⟨hreads, (listing_in_bounds entry).2.2.2.1 2 hreads⟩, hresult,
    (listing_in_bounds float).2.2.2.2.1 hresult⟩

end ShaderStage
