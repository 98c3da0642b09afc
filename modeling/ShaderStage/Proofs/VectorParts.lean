import ShaderStage.Proofs.VectorTypes

/-! # What vectors are made of

A vector is made of numbers and of vectors that together have its components. One would expect the
vectors among the parts to be smaller, and so at least two parts. This fails in one way only: a
single vector of the same size passes for the parts of a vector, and then nothing but itself is
copied.

* `Ty.Spans`: how many components a part has;
* `parts_of_construct_vector`: what the parts of a vector are;
* `construct_single_of_compile`: a vector that is made of one part. -/

namespace ShaderStage

/-! ## Parts and their widths -/

namespace Ty

/-- Parts of a vector are numbers and vectors, so there are no names in them. -/
theorem named_of_vectorComponents {v : Ty} {parts : List Ty} {count n : Nat}
    (h : v.vectorComponents count parts = .ok n) : ∀ p ∈ parts, p.Named CleanName := by
  induction parts generalizing count with
  | nil => exact List.forall_mem_nil _
  | cons p rest ih =>
    by_cases hvector : ∃ k, p = .vector k
    · obtain ⟨k, rfl⟩ := hvector
      exact List.forall_mem_cons.mpr ⟨trivial, ih h⟩
    · rw [vectorComponents_cons v count rest fun k hk => hvector ⟨k, hk⟩] at h
      by_cases hsame : p.same .float32 = true
      · -- only the type itself has the signature of a number
        rw [if_pos hsame] at h
        have hsig : p.signature = float32.signature := eq_of_beq hsame
        have hp : p.Named CleanName :=
          Basic.named (t := .float32) trivial (congrArg (·.toList ++ []) hsig) CleanName
        exact List.forall_mem_cons.mpr ⟨hp, ih h⟩
      · rw [if_neg hsame] at h
        cases h

/-- What is accepted as the parts of a vector has exactly its components. -/
theorem spans_of_checkParts {n : UInt8} {parts : List Ty}
    (h : (vector n).checkParts parts = .ok ()) :
    ∃ widths, List.Forall₂ Spans parts widths ∧ widths.sum = n.toNat := by
  rw [checkParts_vector] at h
  cases hcomponents : (vector n).vectorComponents 0 parts with
  | error e =>
    rw [hcomponents] at h
    cases h
  | ok found =>
    obtain ⟨widths, hspans, hfound⟩ :=
      (vectorComponents_eq_ok_iff (named_of_vectorComponents hcomponents)).mp hcomponents
    rw [hcomponents] at h
    dsimp only at h
    split_ifs at h with heq
    exact ⟨widths, hspans, by omega⟩

/-- A part has at least one component. -/
theorem Spans.pos {t : Ty} {w : Nat} (h : t.Spans w) (ht : t.Proper) : 0 < w := by
  cases h with
  | scalar => exact Nat.one_pos
  | vector k =>
    have hle : 2 ≤ k.toNat := ht.of_vector.1
    omega

theorem Spans.unique {t : Ty} {w w' : Nat} (h : t.Spans w) (h' : t.Spans w') : w = w' := by
  cases h with
  | scalar =>
    cases h'
    rfl
  | vector k =>
    cases h'
    rfl

/-- A part with the components of a vector is that vector. -/
theorem Spans.eq_vector {t : Ty} {w : Nat} (h : t.Spans w) {n : UInt8} (hn : 2 ≤ n)
    (hw : w = n.toNat) : t = .vector n := by
  have hle : 2 ≤ n.toNat := hn
  cases h with
  | scalar => omega
  | vector k => rw [UInt8.toNat_inj.mp hw]

end Ty

/-! ## Copies -/

section

variable {types : List Ty} {widths : List Nat}

/-- A part has no more components than all parts together. -/
theorem exists_spans (h : List.Forall₂ Ty.Spans types widths) {t : Ty} (ht : t ∈ types) :
    ∃ w, t.Spans w ∧ w ≤ widths.sum := by
  induction h with
  | nil => cases ht
  | cons hhead _ ih =>
    rw [List.sum_cons]
    rcases List.mem_cons.mp ht with rfl | hrest
    · exact ⟨_, hhead, Nat.le_add_right _ _⟩
    · obtain ⟨w, hw, hle⟩ := ih hrest
      exact ⟨w, hw, Nat.le_add_left_of_le hle⟩

/-- A vector among the parts is not larger than the whole. -/
theorem le_of_mem_spans {n k : UInt8} (h : List.Forall₂ Ty.Spans types widths)
    (hsum : widths.sum = n.toNat) (hk : .vector k ∈ types) : k ≤ n := by
  obtain ⟨w, hw, hle⟩ := exists_spans h hk
  cases hw
  rw [hsum] at hle
  exact UInt8.le_iff_toNat_le.mpr hle

/-- A part as wide as all parts together is the only one. -/
theorem eq_singleton_of_spans (h : List.Forall₂ Ty.Spans types widths)
    (hproper : ∀ t ∈ types, t.Proper) {t : Ty} (ht : t ∈ types) (hw : t.Spans widths.sum) :
    types = [t] := by
  cases h with
  | nil => cases ht
  | @cons u v types widths hhead hrest =>
    rw [List.sum_cons] at hw
    rcases List.mem_cons.mp ht with rfl | hmem
    · cases hrest with
      | nil => rfl
      | cons hnext =>
        -- The next part is wide as well.
        have hpos := hnext.pos (hproper _ (List.mem_cons_of_mem _ List.mem_cons_self))
        have heq := hw.unique hhead
        rw [List.sum_cons] at heq
        omega
    · -- the first part leaves less than the sum for the others
      have hpos := hhead.pos (hproper _ List.mem_cons_self)
      obtain ⟨w, hw', hle⟩ := exists_spans hrest hmem
      have heq := hw.unique hw'
      omega

/-- Parts of a vector that are not just the vector are at least two, and smaller than it. -/
theorem two_le_length_of_spans {n : UInt8} (hn : 2 ≤ n)
    (hspans : List.Forall₂ Ty.Spans types widths) (hsum : widths.sum = n.toNat)
    (hproper : ∀ t ∈ types, t.Proper) (hcopy : types ≠ [.vector n]) :
    2 ≤ types.length ∧ ∀ k, .vector k ∈ types → k < n := by
  have htwo : 2 ≤ n.toNat := hn
  constructor
  · cases hspans with
    | nil =>
      rw [List.sum_nil] at hsum
      omega
    | cons hhead hrest =>
      cases hrest with
      | nil =>
        rw [List.sum_cons, List.sum_nil, Nat.add_zero] at hsum
        rw [hhead.eq_vector hn hsum] at hcopy
        exact absurd rfl hcopy
      | cons => exact Nat.le_add_left 2 _
  · intro k hk
    refine UInt8.lt_of_le_of_ne (le_of_mem_spans hspans hsum hk) ?_
    rintro rfl
    exact hcopy (eq_singleton_of_spans hspans hproper hk (hsum ▸ .vector k))

end

/-! ## Constructions -/

/-- The emitter knows the id as one of the type. -/
def Emitter.Typed (s : Emitter) (id : Id) (t : Ty) : Prop :=
  ∃ b, s.bindings.lookup id = some b ∧ b.key.type = t

/-- Values have types of proper sizes. -/
theorem Emitter.ProperVectors.of_typed {s : Emitter} (hs : s.ProperVectors) {ids : List Id}
    {types : List Ty} (h : List.Forall₂ s.Typed ids types) : ∀ t ∈ types, t.Proper := by
  induction h with
  | nil => exact List.forall_mem_nil _
  | cons hhead _ ih =>
    obtain ⟨b, hb, rfl⟩ := hhead
    exact List.forall_mem_cons.mpr ⟨hs.of_lookup hb, ih⟩

/-- Whatever was emitted before, and whatever the parts are, a vector is made only of numbers and of
vectors of sizes that there are, which together have exactly its components, and the instruction
lists them as they were given. They are at least two, and the vectors among them smaller than the
whole, unless the only part is a vector of the same type. -/
theorem parts_of_construct_vector {s : Emitter} (hs : s.Reachable) {n : UInt8} {parts : List Id}
    {id : Id} {s' : Emitter} (h : Emit.construct (.vector n) parts s = .ok id s') :
    ∃ types widths,
      List.Forall₂ s.Typed parts types ∧ List.Forall₂ Ty.Spans types widths ∧
      widths.sum = n.toNat ∧
      (∀ t ∈ types, t = .float32 ∨ ∃ k, t = .vector k ∧ 2 ≤ k ∧ k ≤ n) ∧
      (∃ T, s'.code = s.code ++ [⟨.compositeConstruct, T :: id :: parts⟩]) ∧
      (2 ≤ parts.length ∧ (∀ k, .vector k ∈ types → k < n) ↔ types ≠ [.vector n]) := by
  have hvectors := hs.properVectors
  have hacts := Emit.construct_acts (κ := .all True) (t := .vector n) trivial parts
    (Emitter.ready_all hvectors.isOpen True)
  obtain ⟨hturns, bs, hrecorded, hchecked, hcomputed⟩ := hacts.of_ok h
  obtain ⟨T, hT, hcode⟩ := hcomputed.code
  obtain ⟨widths, hspans, hsum⟩ := Ty.spans_of_checkParts hchecked
  have htyped : List.Forall₂ s.Typed parts (bs.map (·.key.type)) :=
    List.forall₂_map_right_iff.mpr (hrecorded.imp fun _ b hb => ⟨b, hb, rfl⟩)
  have hproper := hvectors.of_typed htyped
  have hn : (Ty.vector n).Proper :=
    Emitter.proper_of_typeOf? (hturns.properVectors hvectors).types hT
  -- What the parts are bound to matters by its types only.
  generalize bs.map (·.key.type) = types at htyped hspans hproper
  refine ⟨types, widths, htyped, hspans, hsum, ?_, ⟨T, hcode⟩, ?_, ?_⟩
  · intro t ht
    obtain ⟨w, hw, -⟩ := exists_spans hspans ht
    cases hw with
    | scalar => exact .inl rfl
    | vector k =>
      exact .inr ⟨k, rfl, (hproper _ ht).of_vector.1, le_of_mem_spans hspans hsum ht⟩
  · rintro ⟨hlength, -⟩ rfl
    rw [htyped.length_eq] at hlength
    exact absurd hlength (Nat.lt_irrefl 1)
  · intro hcopy
    rw [htyped.length_eq]
    exact two_le_length_of_spans hn.of_vector.1 hspans hsum hproper hcopy

/-- Two times the number zero. -/
theorem parts_of_construct_vector_zeros :
    let s := endState ((Call.constantFloat 0).run (.start .default))
    s.Reachable ∧ ∃ s', Emit.construct (.vector 2) [2, 2] s = .ok 4 s' ∧
      ∃ T, s'.code = s.code ++ [⟨.compositeConstruct, [T, 4, 2, 2]⟩] := by
  intro s
  have hs : s.Reachable := .call (.start .default) trivial
  have hrun : Emit.construct (.vector 2) [2, 2] s =
      .ok 4 (endState (Emit.construct (.vector 2) [2, 2] s)) :=
    eq_ok_of_run' (by decide +kernel)
  obtain ⟨-, -, -, -, -, -, hcode, -⟩ := parts_of_construct_vector hs hrun
  exact ⟨hs, _, hrun, hcode⟩

/-- A fragment stage that makes a vector of four numbers and then a vector of that vector. -/
def Program.copying : Program where
  name := "copying"
  stage := .fragment
  options := {}
  fields := []
  methods := [⟨"main", .void, [],
    List.replicate 4 (.pushFloat 0) ++ [.construct .vec4 4, .construct .vec4 1, .pop]⟩]

/-- A vector can be made of nothing but a vector of the same size. -/
theorem construct_single_of_compile : ∃ words m i j,
    (compile (some .copying) {}).words = .ok words ∧ Module.decode words = .ok m ∧
      i ∈ m.instructions ∧ i.opcode = .compositeConstruct ∧ i.operands.length = 3 ∧
      j ∈ m.instructions ∧ j.opcode = .typeVector ∧ j.resultId = i.resultType := by
  have hfound : ((compile (some .copying) {}).words.toOption.bind
      fun words => (Module.decode words).toOption.map fun m => m.instructions.any
        fun i => i.opcode = .compositeConstruct ∧ i.operands.length = 3 ∧ m.instructions.any
          fun j => j.opcode = .typeVector ∧ j.resultId = i.resultType) = some true := by
    decide +kernel
  simp only [Option.bind_eq_some_iff, Option.map_eq_some_iff, List.any_eq_true,
    decide_eq_true_eq] at hfound
  obtain ⟨words, hwords, m, hm, i, hi, hop, hlength, j, hj, htype, hresult⟩ := hfound
  exact ⟨words, m, i, j, eq_ok_of_toOption hwords, eq_ok_of_toOption hm, hi, hop, hlength, hj,
    htype, hresult⟩

end ShaderStage
