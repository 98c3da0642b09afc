import ShaderStage.Proofs.Annotation
import ShaderStage.Proofs.Definitions

/-! # Capabilities

A module declares the capabilities of its stage, those that the options add, and those that its own
types and built-ins need. It declares each of them once, and no others.

* `capabilities_of_compile`: the capabilities of a compiled module. -/

namespace ShaderStage

/-! ## Instructions by opcode -/

/-- Looking for an opcode finds all its instructions, in order. -/
theorem Module.map_find (m : Module) (op : Opcode) :
    (m.find op).map Placed.instruction = m.instructions.filter (·.opcode = op) := by
  rw [find, instructions, List.filter_map]
  rfl

namespace Draft.WellFilled

variable {d : Draft} {part : Section} {op : Opcode}

/-- The instructions with an opcode that belongs to one section only are those of that section. -/
theorem filter_opcode (hd : d.WellFilled)
    (hpart : ∀ part' ∈ Section.order, op ∈ part'.opcodes → part' = part)
    (hmemory : part ≠ .memoryModel) :
    d.instructions.filter (·.opcode = op) = (d.emitted part).filter (·.opcode = op) := by
  have hother : ∀ part', part' ≠ part → (d.contents part').filter (·.opcode = op) = [] := by
    intro part' hne
    refine List.filter_eq_nil_iff.mpr fun i hi hop => hne (hpart part' part'.mem_order ?_)
    rw [← of_decide_eq_true hop]
    exact hd.parts _ (Draft.mem_contents hi)
  have hsame : d.contents part = d.emitted part := if_neg hmemory
  rw [Draft.instructions, List.filter_flatMap]
  cases part <;> simp [Section.order, hother, hsame]

/-- What is read off the entries with such an opcode is read off the instructions of the module. -/
theorem filterMap_log {β : Type} (hd : d.WellFilled)
    (hpart : ∀ part' ∈ Section.order, op ∈ part'.opcodes → part' = part)
    (hmemory : part ≠ .memoryModel) {g : Instruction → Option β}
    (hg : ∀ i : Instruction, i.opcode ≠ op → g i = none) :
    d.log.toList.filterMap (fun e => g e.2) =
      (d.toModule.find op).filterMap fun p => g p.instruction := by
  -- The opcode belongs to this one section, and a section keeps the order of the log.
  have hfind := d.toModule.map_find op
  rw [Draft.instructions_toModule, hd.filter_opcode hpart hmemory] at hfind
  calc d.log.toList.filterMap (fun e => g e.2)
      = (d.emitted part).filterMap g := by
        rw [Draft.emitted, List.filterMap_filterMap]
        refine List.filterMap_congr fun e he => ?_
        by_cases hsection : e.1 = part
        · simp [hsection]
        · have hop : e.2.opcode ≠ op := fun hop =>
            hsection (hpart e.1 e.1.mem_order (hop ▸ hd.parts _ he))
          simp [hsection, hg _ hop]
    _ = ((d.emitted part).filter (·.opcode = op)).filterMap g := by
        rw [List.filterMap_filter]
        refine List.filterMap_congr fun i _ => ?_
        by_cases hop : i.opcode = op <;> simp [hop, hg]
    _ = _ := by
        rw [← hfind, List.filterMap_map]
        rfl

/-- All that is logged is in the module, a memory model that was replaced apart. -/
theorem mem_instructions_iff (hd : d.WellFilled) {i : Instruction} (hi : i.opcode ≠ .memoryModel) :
    i ∈ d.instructions ↔ ∃ part, (part, i) ∈ d.log.toList := by
  refine ⟨Draft.mem_instructions, ?_⟩
  rintro ⟨part, hlog⟩
  refine List.mem_flatMap.mpr ⟨part, part.mem_order, ?_⟩
  unfold Draft.contents
  split
  · rename_i hpart
    have hop := hd.parts _ hlog
    rw [hpart] at hop
    exact absurd (List.mem_singleton.mp hop) hi
  · exact Draft.mem_emitted.mpr hlog

end Draft.WellFilled

/-! ## Declaring in order -/

namespace Capability

/-- What is declared in the end was declared before or is needed. -/
theorem mem_foldl_declareIn {cs needed : List Capability} {c : Capability} :
    c ∈ needed.foldl declareIn cs ↔ c ∈ cs ∨ c ∈ needed := by
  induction needed generalizing cs with
  | nil => simp
  | cons c' needed ih =>
    have hmem : c ∈ declareIn cs c' ↔ c ∈ cs ∨ c = c' := by
      unfold declareIn
      split
      · rename_i hc'
        exact ⟨.inl, fun h => h.elim id fun heq => heq ▸ hc'⟩
      · simp
    rw [List.foldl_cons, ih, hmem, List.mem_cons, or_assoc]

/-- Nothing is declared twice. -/
theorem nodup_foldl_declareIn {cs : List Capability} (h : cs.Nodup) (needed : List Capability) :
    (needed.foldl declareIn cs).Nodup := by
  induction needed generalizing cs with
  | nil => exact h
  | cons c needed ih =>
    refine ih ?_
    unfold declareIn
    split
    · exact h
    · rename_i hc
      rw [List.nodup_append]
      refine ⟨h, List.nodup_singleton c, ?_⟩
      rintro a ha b hb rfl
      exact hc (List.mem_singleton.mp hb ▸ ha)

end Capability

/-- The capabilities of a stage. -/
theorem Stage.mem_capabilities {stage : Stage} {c : Capability} :
    c ∈ stage.capabilities ↔ c = .shader ∨ stage = .geometry ∧ c = .geometry ∨
      stage = .tessellation ∧ c = .tessellation := by
  cases stage <;> simp [capabilities]

/-- The capabilities that were declared are those of the module. -/
theorem Draft.HasCapabilities.find {d : Draft} {cs : List Capability} (h : d.HasCapabilities cs)
    (hfilled : d.WellFilled) :
    (d.toModule.find .capability).map (·.instruction.operands) = cs.map ([·]) := by
  have hsection : d.instructions.filter (·.opcode = .capability) =
      (d.emitted .capabilities).filter (·.opcode = .capability) :=
    hfilled.filter_opcode (by decide) nofun
  have hfind := d.toModule.map_find .capability
  rw [Draft.instructions_toModule, hsection, h] at hfind
  calc (d.toModule.find .capability).map (·.instruction.operands)
      = ((d.toModule.find .capability).map Placed.instruction).map Instruction.operands := by
        rw [List.map_map]
        rfl
    _ = ((cs.map Instruction.declaring).filter (·.opcode = .capability)).map
          Instruction.operands := by rw [hfind]
    _ = (cs.map Instruction.declaring).map Instruction.operands := by
        rw [List.filter_eq_self.mpr]
        exact List.forall_mem_map.mpr fun _ _ => rfl
    _ = cs.map ([·]) := by
        rw [List.map_map]
        rfl

/-- The instructions of a module need what the entries of the log need. -/
theorem Draft.WellFilled.exists_needs_iff {d : Draft} (hd : d.WellFilled) {c : Capability} :
    (∃ i ∈ d.instructions, c ∈ i.needs) ↔ c ∈ needsOf d.log.toList := by
  rw [needsOf, List.mem_flatMap]
  constructor
  · rintro ⟨i, hi, hc⟩
    obtain ⟨part, hlog⟩ := Draft.mem_instructions hi
    exact ⟨_, hlog, hc⟩
  · rintro ⟨⟨part, ⟨op, operands⟩⟩, hlog, hc⟩
    refine ⟨_, (hd.mem_instructions_iff ?_).mpr ⟨part, hlog⟩, hc⟩
    rintro rfl
    cases hc

/-- The capabilities that a module declares are pairwise distinct. They are the one of shaders, that
of the stage if it has one, those of the options, and those that the instructions of the module
need. -/
theorem capabilities_of_compile {p : Program} {o : Options} {words : List Word}
    (h : (compile (some p) o).words = .ok words) :
    ∃ (m : Module) (caps : List Capability), Module.decode words = .ok m ∧
      (m.find .capability).map (·.instruction.operands) = caps.map ([·]) ∧ caps.Nodup ∧
      ∀ c, c ∈ caps ↔ c = .shader ∨ p.stage = .geometry ∧ c = .geometry ∨
        p.stage = .tessellation ∧ c = .tessellation ∨ c ∈ o.capabilities ∨
        ∃ i ∈ m.instructions, c ∈ i.needs := by
  obtain ⟨c, hrun, hwords, -⟩ := emitModule_of_compile h
  have hfilled := wellFilled_of_emitModule hrun
  obtain ⟨s₁, s₂, s₃, hstaged⟩ := Program.staged_of_emitModule (p.within_all o False) hrun
  obtain ⟨hcaps, -⟩ := hstaged.annotates
  refine ⟨c.emitter.toModule, _, Draft.decode_assemble hwords, hcaps.find hfilled, ?_, ?_⟩
  · exact Capability.nodup_foldl_declareIn (Capability.nodup_foldl_declareIn List.nodup_nil _) _
  · intro cap
    rw [Capability.mem_foldl_declareIn, Capability.mem_foldl_declareIn,
      Program.baseCapabilities, List.mem_append, Stage.mem_capabilities,
      Draft.instructions_toModule, hfilled.exists_needs_iff]
    simp only [List.not_mem_nil, false_or, or_assoc]

/-- A geometry stage with a wide float and a clip distance. -/
def Program.clipped : Program where
  name := "clipped"
  stage := .geometry
  options := { maxVertices := 3 }
  fields :=
    [⟨"depth", .float 64, none⟩,
     ⟨"distance", .array .float32 1,
      some { builtin := some .clipDistance, direction := .output }⟩]
  methods := [⟨"main", .void, [], []⟩]

theorem capabilities_of_compile_clipped :
    ∃ (words : List Word) (m : Module) (caps : List Capability),
      (compile (some .clipped) { capabilities := [.int8] }).words = .ok words ∧
      Module.decode words = .ok m ∧
      (m.find .capability).map (·.instruction.operands) = caps.map ([·]) ∧ caps.Nodup ∧
      Capability.geometry ∈ caps ∧ Capability.int8 ∈ caps := by
  have hok : (compile (some .clipped) { capabilities := [.int8] }).words.isOk = true := by
    decide +kernel
  cases hwords : (compile (some .clipped) { capabilities := [.int8] }).words with
  | error e =>
    rw [hwords] at hok
    cases hok
  | ok words =>
    obtain ⟨m, caps, hm, hfind, hnodup, hmem⟩ := capabilities_of_compile hwords
    refine ⟨words, m, caps, rfl, hm, hfind, hnodup, ?_, ?_⟩
    · exact (hmem _).mpr (.inr (.inl ⟨rfl, rfl⟩))
    · exact (hmem _).mpr (.inr (.inr (.inr (.inl (List.mem_singleton_self _)))))

end ShaderStage
