import Mathlib.Data.List.Basic
import ShaderStage.Module.Basic

/-! # Decoding what was assembled

The words of an assembled draft decode to the instructions of the draft, in order. Sections are a
partition of the log, so the results of these instructions are those of the log.

* `Draft.decode_assemble`: the words of a draft decode to its instructions;
* `Section.mem_order`, `Section.nodup_order`: the sections partition the log. -/

namespace ShaderStage

/-! ## Splitting words into instructions -/

/-- Instructions one after the other, the first at word `offset`. -/
def placeFrom (offset : Nat) : List Instruction → List Placed
  | [] => []
  | i :: rest => ⟨offset, i⟩ :: placeFrom (offset + i.wordCount) rest

@[simp] theorem map_instruction_placeFrom (offset : Nat) (is : List Instruction) :
    (placeFrom offset is).map Placed.instruction = is := by
  induction is generalizing offset with
  | nil => rfl
  | cons i rest ih => simp [placeFrom, ih]

namespace Instruction

/-- The first word of an instruction tells its length. -/
theorem toNat_high_head {i : Instruction} (h : i.Fits) : i.head.high.toNat = i.wordCount := by
  have hlt : i.wordCount < 65536 := Nat.lt_succ_of_le h
  rw [head, Word.high_ofHalves]
  exact Nat.mod_eq_of_lt hlt

/-- The first word of an instruction tells its opcode. -/
theorem low_head (i : Instruction) : i.head.low = i.opcode := by
  rw [head, Word.low_ofHalves]

end Instruction

namespace Module

/-- The words of an instruction are taken off. -/
theorem split_words {i : Instruction} (h : i.Fits) (acc : Array Placed) (offset : Nat)
    (rest : List Word) :
    split acc offset (i.words ++ rest) =
      split (acc.push ⟨offset, i⟩) (offset + i.wordCount) rest := by
  have hcount : i.wordCount = i.operands.length + 1 := rfl
  rw [Instruction.words, List.cons_append, split.eq_def]
  simp only [Instruction.toNat_high_head h, Instruction.low_head, List.length_append]
  rw [if_neg (by omega), hcount, Nat.add_sub_cancel, List.take_left, List.drop_left]

/-- The words of instructions are split where they were joined. -/
theorem split_flatMap_words {is : List Instruction} (h : ∀ i ∈ is, i.Fits) (acc : Array Placed)
    (offset : Nat) :
    split acc offset (is.flatMap Instruction.words) = .ok (acc.toList ++ placeFrom offset is) := by
  induction is generalizing acc offset with
  | nil =>
    rw [List.flatMap_nil, split.eq_def]
    simp [placeFrom]
  | cons i rest ih =>
    have hi : i.Fits := h i List.mem_cons_self
    have hrest : ∀ j ∈ rest, j.Fits := fun j hj => h j (List.mem_cons_of_mem _ hj)
    rw [List.flatMap_cons, split_words hi, ih hrest]
    simp [placeFrom]

end Module

/-! ## Assembling -/

namespace Draft

/-- Instructions that are written fit. -/
theorem encodeAll_eq_ok {is : List Instruction} {ws : List Word} (h : encodeAll is = .ok ws) :
    (∀ i ∈ is, i.Fits) ∧ ws = is.flatMap Instruction.words := by
  unfold encodeAll at h
  split at h
  · cases h
  · rename_i hnone
    cases h
    refine ⟨fun i hi => ?_, rfl⟩
    have hfits := List.find?_eq_none.mp hnone i hi
    simpa using hfits

/-- The module that a draft is assembled to. -/
def toModule (d : Draft) : Module where
  header := ⟨magicNumber, d.version.word, generatorNumber, d.ids.next, 0⟩
  placed := placeFrom 5 d.instructions

@[simp] theorem instructions_toModule (d : Draft) : d.toModule.instructions = d.instructions :=
  map_instruction_placeFrom _ _

/-- What is assembled is the header and the instructions. -/
theorem encodeAll_of_assemble {d : Draft} {ws : List Word} (h : d.assemble.1 = .ok ws) :
    ∃ body, encodeAll d.instructions = .ok body ∧ ws = d.header d.ids.next ++ body := by
  unfold assemble IdSupply.bound at h
  cases hclosed : d.ids.closed with
  | true => simp [hclosed] at h
  | false =>
    simp only [hclosed, Bool.false_eq_true, if_false] at h
    cases hall : encodeAll d.instructions with
    | error fault => simp [hall, Except.map] at h
    | ok body =>
      simp only [hall, Except.map, Except.ok.injEq] at h
      exact ⟨body, rfl, h.symm⟩

/-- The length of every instruction of an assembled module fits in its first word. -/
theorem fits_of_assemble {d : Draft} {ws : List Word} (h : d.assemble.1 = .ok ws) :
    ∀ i ∈ d.instructions, i.Fits := by
  obtain ⟨body, hbody, -⟩ := encodeAll_of_assemble h
  exact (encodeAll_eq_ok hbody).1

/-- A module that cannot be written out has an instruction that is too long. -/
theorem assemble_eq_error {d : Draft} (hd : d.ids.closed = false) {fault : Fault}
    (h : d.assemble.1 = .error fault) :
    ∃ i ∈ d.instructions, 65535 < i.wordCount ∧ fault = .tooLong i.opcode i.wordCount := by
  unfold assemble IdSupply.bound encodeAll at h
  rw [hd] at h
  cases hfind : d.instructions.find? fun i => ¬ i.Fits with
  | none =>
    simp only [hfind, Except.map] at h
    cases h
  | some i =>
    simp only [hfind, Except.map] at h
    cases h
    refine ⟨i, List.mem_of_find?_eq_some hfind, ?_, rfl⟩
    have hlong := List.find?_some hfind
    simpa [Instruction.Fits] using hlong

/-- Decoding undoes assembling. -/
theorem decode_assemble {d : Draft} {ws : List Word} (h : d.assemble.1 = .ok ws) :
    Module.decode ws = .ok d.toModule := by
  obtain ⟨body, hbody, rfl⟩ := encodeAll_of_assemble h
  obtain ⟨hfits, rfl⟩ := encodeAll_eq_ok hbody
  show Module.decode (magicNumber :: d.version.word :: generatorNumber :: d.ids.next :: 0 ::
    d.instructions.flatMap Instruction.words) = .ok d.toModule
  simp [Module.decode, Module.split_flatMap_words hfits, toModule, Except.map]

end Draft

/-! ## Sections partition the log -/

/-- Every section has its place. -/
theorem Section.mem_order (s : Section) : s ∈ Section.order := by
  cases s <;> decide

/-- No section has two. -/
theorem Section.nodup_order : Section.order.Nodup := by
  decide

/-- Adding an element to one of several disjoint parts adds it to their sum. -/
theorem flatMap_insert_perm {α β : Type} [DecidableEq α] {a : α} {parts : List α} (ha : a ∈ parts)
    (hnodup : parts.Nodup) (b : β) (g : α → List β) :
    (parts.flatMap fun p => if a = p then b :: g p else g p).Perm (b :: parts.flatMap g) := by
  induction parts with
  | nil => cases ha
  | cons p rest ih =>
    obtain ⟨hnot, hrest⟩ := List.nodup_cons.mp hnodup
    simp only [List.flatMap_cons]
    by_cases hap : a = p
    · subst hap
      have hsame : (rest.flatMap fun p => if a = p then b :: g p else g p) = rest.flatMap g := by
        refine List.flatMap_congr fun q hq => if_neg ?_
        rintro rfl
        exact hnot hq
      rw [if_pos rfl, hsame]
      exact List.Perm.refl _
    · have harest : a ∈ rest := by
        rcases List.mem_cons.mp ha with h | h
        · exact absurd h hap
        · exact h
      rw [if_neg hap]
      exact ((ih harest hrest).append_left (g p)).trans List.perm_middle

/-- What the sections hold, one after the other, is what the log holds. -/
theorem sections_perm {β : Type} (f : Instruction → Option β)
    (log : List (Section × Instruction)) :
    (Section.order.flatMap fun s =>
      log.filterMap fun e => if e.1 = s then f e.2 else none).Perm
        (log.filterMap fun e => f e.2) := by
  -- By induction on the log: an entry adds to its own section and to no other.
  induction log with
  | nil => exact List.Perm.refl _
  | cons e rest ih =>
    cases hf : f e.2 with
    | none =>
      simpa [List.filterMap_cons, hf] using ih
    | some b =>
      have hinsert := flatMap_insert_perm (Section.mem_order e.1) Section.nodup_order b
        fun s => rest.filterMap fun e => if e.1 = s then f e.2 else none
      have hhead : (Section.order.flatMap fun s =>
          (e :: rest).filterMap fun e => if e.1 = s then f e.2 else none) =
          Section.order.flatMap fun s =>
            if e.1 = s then b :: rest.filterMap fun e => if e.1 = s then f e.2 else none
            else rest.filterMap fun e => if e.1 = s then f e.2 else none := by
        refine List.flatMap_congr fun s _ => ?_
        by_cases hs : e.1 = s
        · simp [hs, hf]
        · simp [hs]
      rw [hhead, List.filterMap_cons, hf]
      exact hinsert.trans (ih.cons b)

end ShaderStage
