import ShaderStage.Proofs.Decoding
import ShaderStage.Proofs.Turns.Module

/-! # Every id has one definition

The ids of a compiled module are the numbers from one up to its bound: each is the result of exactly
one instruction. Ids are counted without limit while a module is emitted, so the statements ask for
fewer ids than there are words.

* `wellFilled_of_emitModule`: a module that is emitted was filled from nothing;
* `resultIds_perm_of_compile`: the results of a compiled module are the ids below its bound. -/

namespace ShaderStage

/-! ## Drafts -/

namespace Draft

theorem resultId_of_mem_memoryModel {i : Instruction} (h : i.opcode ∈ Section.memoryModel.opcodes) :
    i.resultId = none := by
  have hop : i.opcode = .memoryModel := by simpa [Section.opcodes] using h
  have hshape : Opcode.memoryModel.shape = .noResult := by decide
  simp [Instruction.resultId, hop, hshape]

/-- What a section has was emitted into it. -/
theorem mem_emitted {d : Draft} {s : Section} {i : Instruction} :
    i ∈ d.emitted s ↔ (s, i) ∈ d.log.toList := by
  simp only [emitted, List.mem_filterMap]
  constructor
  · rintro ⟨⟨s', j⟩, hmem, h⟩
    by_cases hs : s' = s
    · subst hs
      simp only [if_true, Option.some.injEq] at h
      rwa [← h]
    · simp [hs] at h
  · intro h
    exact ⟨(s, i), h, by simp⟩

/-- The results in a section are those that were logged for it. -/
theorem WellFilled.filterMap_contents {d : Draft} (hd : d.WellFilled) (s : Section) :
    (d.contents s).filterMap Instruction.resultId =
      d.log.toList.filterMap fun e => if e.1 = s then e.2.resultId else none := by
  have hemitted : (d.emitted s).filterMap Instruction.resultId =
      d.log.toList.filterMap fun e => if e.1 = s then e.2.resultId else none := by
    rw [emitted, List.filterMap_filterMap]
    congr 1
    funext e
    by_cases he : e.1 = s <;> simp [he]
  unfold contents
  split
  · rename_i hs
    subst hs
    -- The last memory model replaces the others, but none of them has a result id.
    have hnone : ∀ i ∈ d.emitted .memoryModel, i.resultId = none := by
      intro i hi
      exact resultId_of_mem_memoryModel (hd.parts _ (mem_emitted.mp hi))
    rw [← hemitted, List.filterMap_eq_nil_iff.mpr hnone, List.filterMap_eq_nil_iff]
    intro i hi
    exact hnone i (List.mem_of_getLast? (by simpa using hi))
  · exact hemitted

/-- The results of the instructions of a draft are the ids taken. -/
theorem WellFilled.results_perm {d : Draft} (hd : d.WellFilled) :
    (d.instructions.filterMap Instruction.resultId).Perm (idsBetween 0 d.ids.taken) := by
  rw [← hd.results, instructions, List.filterMap_flatMap]
  simp only [hd.filterMap_contents]
  exact sections_perm Instruction.resultId d.log.toList

end Draft

/-! ## Compilation -/

/-- The number of ids that compiling a program takes. -/
def Program.idsTaken (p : Program) (o : Options) : Nat :=
  (endState (p.emitModule o { emitter := .start o.moduleVersion })).emitter.draft.ids.taken

/-- A compilation that gives words has emitted a module, which the words are assembled from. -/
theorem emitModule_of_compile {p : Program} {o : Options} {words : List Word}
    (h : (compile (some p) o).words = .ok words) :
    ∃ c, p.emitModule o { emitter := .start o.moduleVersion } = .ok () c ∧
      c.emitter.draft.assemble.1 = .ok words ∧ (compile (some p) o).record = c.record := by
  unfold compile Program.compile EStateM.run at h ⊢
  simp only [bind_apply] at h ⊢
  cases hrun : p.emitModule o { emitter := .start o.moduleVersion } with
  | error e c =>
    simp [hrun] at h
  | ok u c =>
    simp only [hrun, Compile.emit, EStateM.run, Emit.assemble, bind_apply, get_apply] at h ⊢
    cases hwords : c.emitter.draft.assemble.1 with
    | error fault =>
      simp [hwords] at h
    | ok ws =>
      simp only [hwords, modify_apply, pure_apply, Except.ok.injEq] at h ⊢
      exact ⟨c, rfl, by rw [hwords, h], rfl⟩

/-- A module that is emitted was filled from nothing. -/
theorem wellFilled_of_emitModule {p : Program} {o : Options} {c : Compilation}
    (h : p.emitModule o { emitter := .start o.moduleVersion } = .ok () c) :
    c.emitter.draft.WellFilled := by
  obtain ⟨pub, hturns⟩ := Program.leads_of_emitModule (p.within_all o False)
  rw [h] at hturns
  exact (Draft.wellFilled_empty _).grows hturns.grows

/-- The ids of a compiled module are exactly the numbers from one up to its bound: each of them is
the result of one instruction, and nothing else is a result. -/
theorem resultIds_perm_of_compile {p : Program} {o : Options} {words : List Word}
    (hids : p.idsTaken o < idLimit) (h : (compile (some p) o).words = .ok words) :
    ∃ m, Module.decode words = .ok m ∧
      m.resultIds.Perm ((List.range' 1 (m.header.bound.toNat - 1)).map UInt32.ofNat) ∧
      ∀ id, m.resultIds.count id = if 0 < id ∧ id < m.header.bound then 1 else 0 := by
  obtain ⟨c, hrun, hwords, -⟩ := emitModule_of_compile h
  have hfilled := wellFilled_of_emitModule hrun
  have htaken : c.emitter.draft.ids.taken < idLimit := by
    rwa [Program.idsTaken, hrun] at hids
  have hbound : c.emitter.draft.toModule.header.bound.toNat = c.emitter.draft.ids.taken + 1 :=
    Id.toNat_nth htaken
  have hperm : c.emitter.draft.toModule.resultIds.Perm
      (idsBetween 0 c.emitter.draft.ids.taken) := by
    rw [Module.resultIds, Draft.instructions_toModule]
    exact hfilled.results_perm
  refine ⟨c.emitter.draft.toModule, Draft.decode_assemble hwords, ?_, ?_⟩
  · rw [hbound, Nat.add_sub_cancel]
    have hshift : idsBetween 0 c.emitter.draft.ids.taken =
        (List.range' 1 c.emitter.draft.ids.taken).map UInt32.ofNat := by
      rw [List.range'_eq_map_range, List.map_map, idsBetween, Nat.sub_zero,
        List.range'_eq_map_range, List.map_map]
      refine List.map_congr_left fun n _ => ?_
      simp [Id.nth, Nat.add_comm]
    rwa [← hshift]
  · intro id
    rw [hperm.count_eq, (nodup_idsBetween (Nat.le_of_lt htaken)).count]
    refine if_congr ?_ rfl rfl
    rw [mem_idsBetween, UInt32.lt_iff_toNat_lt, UInt32.lt_iff_toNat_lt, hbound]
    constructor
    · rintro ⟨n, -, hn, rfl⟩
      rw [Id.toNat_nth (by omega)]
      exact ⟨Nat.succ_pos n, by omega⟩
    · rintro ⟨hpos, hlt⟩
      have hpos' : 0 < id.toNat := hpos
      refine ⟨id.toNat - 1, Nat.zero_le _, by omega, ?_⟩
      apply UInt32.toNat_inj.mp
      rw [Id.toNat_nth (by omega)]
      omega

/-- A fragment stage that transforms and tints a color, with a method besides its entry point. -/
def Program.tint : Program where
  name := "tint"
  stage := .fragment
  options := {}
  fields :=
    [⟨"tint", .vec4, some { location := 1, direction := .input }⟩,
     ⟨"camera",
      .struct "Camera" (.cons "view" .matrix4 (.cons "sizes" (.array .float32 2) .nil)),
      some { binding := some 0 }⟩,
     ⟨"color", .vec4, some { direction := .output }⟩]
  methods :=
    [⟨"scale", .float32, [⟨"", .float32⟩],
      [.loadField 1, .access 1, .access 0, .deref, .math .sin, .storeLocal 0, .loadLocal 0,
       .deref, .ret]⟩,
     ⟨"main", .void, [],
      [.loadField 1, .access 0, .deref, .loadField 0, .deref, .binary .multiply, .dup,
       .narrowVec4, .pushFloat 0x3F800000, .construct .vec4 2, .binary .add,
       .pushFloat 0x40000000, .binary .multiply, .storeField 2]⟩]

theorem compile_tint : ∃ words, (compile (some .tint) {}).words = .ok words := by
  have hok : (compile (some .tint) {}).words.isOk = true := by decide +kernel
  cases h : (compile (some .tint) {}).words with
  | ok words => exact ⟨words, rfl⟩
  | error e =>
    rw [h] at hok
    cases hok

theorem idsTaken_tint : Program.tint.idsTaken {} < idLimit := by
  decide +kernel

theorem resultIds_perm_tint :
    ∃ words m, (compile (some .tint) {}).words = .ok words ∧ Module.decode words = .ok m ∧
      m.resultIds.Perm ((List.range' 1 (m.header.bound.toNat - 1)).map UInt32.ofNat) := by
  obtain ⟨words, hwords⟩ := compile_tint
  obtain ⟨m, hm, hperm, -⟩ := resultIds_perm_of_compile idsTaken_tint hwords
  exact ⟨words, m, hwords, hm, hperm⟩

end ShaderStage
