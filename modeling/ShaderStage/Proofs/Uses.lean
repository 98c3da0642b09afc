import Mathlib.Data.List.Basic
import ShaderStage.Module.Listing
import ShaderStage.Proofs.Growth

/-! # Uses

The ids that an instruction uses are the operands that a listing shows as ids, its own result apart.
Instructions are in order if each of them uses only ids that were known before the first of them or
that are results of earlier ones.

* `Instruction.uses`: the ids that an instruction uses;
* `InOrder`: instructions that use only what they know. -/

namespace ShaderStage

/-! ## The ids in operands -/

/-- The id that an item of a listing shows. -/
def Item.id? (operands : List Word) : Item → Option Id
  | .operand index .id => operands[index]?
  | _ => none

/-- The ids that the end of a line shows. -/
def Remainder.ids (operands : List Word) (start : Nat) : Remainder → List Id
  | .all .id => operands.drop start
  | .stringAndIds => operands.drop (start + (Literal.decode (operands.drop start)).2)
  | _ => []

/-- The ids that a form shows. -/
def Form.ids (f : Form) (operands : List Word) : List Id :=
  f.items.filterMap (Item.id? operands) ++ f.remainder.ids operands f.start

/-- The ids that an instruction uses. -/
def Instruction.uses (i : Instruction) : List Id :=
  i.opcode.form.ids i.operands

-- A structure type uses the types of its members, a variable its type but not its storage class.
example : (Instruction.mk .typeStruct [9, 1, 2, 1]).uses = [1, 2, 1] := rfl
example : (Instruction.mk .var [4, 9, StorageClass.function]).uses = [4] := rfl

/-- An operator uses its type and both operands, in whichever order they are written. -/
theorem uses_arithmetic {op : Opcode} (hop : op ∈ Opcode.arithmetic) (T id l r : Id) (swap : Bool) :
    (Instruction.mk op (if swap then [T, id, r, l] else [T, id, l, r])).uses ⊆ [T, l, r] := by
  have hforms : ∀ op ∈ Opcode.arithmetic, op.form = ⟨2, [.operand 0 .id], 2, .all .id⟩ := by decide
  rw [Instruction.uses, hforms op hop]
  cases swap with
  | false => exact List.Subset.refl [T, l, r]
  | true => simp [Form.ids, Item.id?, Remainder.ids]

/-! ## Order -/

/-- What holds at every place of two lists, the second seen after the first, holds at every place of
both together. -/
theorem forall_split_append {α : Type} {P : List α → α → Prop} {xs ys : List α}
    (hxs : ∀ before a after, xs = before ++ a :: after → P before a)
    (hys : ∀ before a after, ys = before ++ a :: after → P (xs ++ before) a) :
    ∀ before a after, xs ++ ys = before ++ a :: after → P before a := by
  intro before a after h
  rcases List.append_eq_append_iff.mp h with ⟨middle, rfl, hys'⟩ | ⟨middle, rfl, hrest⟩
  · exact hys middle a after hys'
  · cases middle with
    | nil =>
      have hfirst := hys [] a after hrest.symm
      simpa using hfirst
    | cons b middle =>
      cases hrest
      exact hxs before a middle rfl

/-- Instructions use only what is known beforehand and the results of earlier instructions. -/
def InOrder (known : Id → Prop) (is : List Instruction) : Prop :=
  ∀ before i after, is = before ++ i :: after →
    ∀ u ∈ i.uses, known u ∨ ∃ d ∈ before, d.resultId = some u

namespace InOrder

variable {known : Id → Prop} {xs ys : List Instruction}

theorem nil : InOrder known [] := by
  intro before i after h
  simp at h

theorem singleton {i : Instruction} (h : ∀ u ∈ i.uses, known u) : InOrder known [i] := by
  intro before j after heq u hu
  rcases List.append_eq_cons_iff.mp heq.symm with ⟨rfl, hcons⟩ | ⟨before', rfl, hcons⟩
  · cases hcons
    exact .inl (h u hu)
  · simp at hcons

/-- What comes later may use what came before. -/
theorem append (hxs : InOrder known xs)
    (hys : InOrder (fun u => known u ∨ ∃ d ∈ xs, d.resultId = some u) ys) :
    InOrder known (xs ++ ys) := by
  refine forall_split_append hxs fun before i after h u hu => ?_
  rcases hys before i after h u hu with (hknown | ⟨d, hd, hresult⟩) | ⟨d, hd, hresult⟩
  · exact .inl hknown
  · exact .inr ⟨d, List.mem_append_left _ hd, hresult⟩
  · exact .inr ⟨d, List.mem_append_right _ hd, hresult⟩

/-- The rest may use the first result. -/
theorem cons {i : Instruction} (hi : ∀ u ∈ i.uses, known u)
    (hys : InOrder (fun u => known u ∨ i.resultId = some u) ys) : InOrder known (i :: ys) := by
  refine append (singleton hi) ?_
  simpa using hys

theorem mono {known' : Id → Prop} (hknown : ∀ u, known u → known' u) (h : InOrder known xs) :
    InOrder known' xs := by
  intro before i after heq u hu
  exact (h before i after heq u hu).imp_left (hknown u)

/-- Instructions that use nothing. -/
theorem of_uses_eq_nil (h : ∀ i ∈ xs, i.uses = []) : InOrder known xs := by
  rintro before i after rfl u hu
  rw [h i (by simp)] at hu
  simp at hu

end InOrder

end ShaderStage
