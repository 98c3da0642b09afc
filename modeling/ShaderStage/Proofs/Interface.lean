import ShaderStage.Proofs.Grammar

/-! # Entry points

Every entry point of a compiled module names the function of the first method called `main`, and
lists the inputs and outputs of the stage. The list grows while the fields are declared: a variable
is added if its layout marks it as an input or an output and its type leaves it where the layout
puts it. The variables themselves get their storage classes from the types of their pointers. The
two conditions agree (`Field.listed_iff`), whatever the fields are, so the list and the variables of
the module do:

* `Program.Arranged.interface_eq`: the variables of the module that are inputs or outputs are those
  that were listed;
* `entryPoint_of_compile`: every entry point of a compiled module is about the function of `main`
  and goes on with exactly these variables, in the order of the fields. -/

namespace ShaderStage

/-- The variable is declared with a storage class that crosses the border of the stage. -/
def Instruction.crosses (i : Instruction) : Bool :=
  i.opcode = .var &&
    (i.operands[2]? = some StorageClass.input || i.operands[2]? = some StorageClass.output)

/-- The variables of the module that cross the border of the stage, in order. -/
def Module.interface (m : Module) : List Id :=
  (m.declarations.filter Instruction.crosses).filterMap Instruction.resultId

/-- The name of the entry point, in words. -/
theorem ofString_entryPointName : Literal.ofString entryPointName = [0x6E69616D, 0] := by
  decide +kernel

/-- The name of an entry point reads back, and the interface follows it. -/
theorem literal_entryPoint (model : ExecutionModel) (f : Id) (interface : List Id) :
    let i : Instruction :=
      ⟨.entryPoint, model :: f :: Literal.ofString entryPointName ++ interface⟩
    (i.literal 2).1 = Literal.bytesOf entryPointName ∧
      i.operands.drop (2 + (i.literal 2).2.toNat) = interface := by
  have hbytes : Literal.bytesOf entryPointName = [0x6D, 0x61, 0x69, 0x6E] := by decide +kernel
  rw [ofString_entryPointName, hbytes]
  exact ⟨rfl, rfl⟩

/-- Declared variables are inputs or outputs of the module if they were declared as such. -/
theorem filterMap_crosses {vs : List Variable} {vars : List Instruction}
    (h : List.Forall₂ Variable.DeclaredBy vs vars) :
    (vars.filter Instruction.crosses).filterMap Instruction.resultId = crossing vs := by
  induction h with
  | nil => rfl
  | @cons v i vs vars hv _ ih =>
    obtain ⟨T, rfl⟩ := hv
    have hcrosses : Instruction.crosses ⟨.var, [T, v.id, v.storage]⟩ = v.storage.crosses := by
      simp [Instruction.crosses, StorageClass.crosses]
    rw [crossing_cons, List.filter_cons, hcrosses]
    by_cases hstorage : v.storage.crosses = true
    · rw [if_pos hstorage, if_pos hstorage, List.filterMap_cons, ih]
      rfl
    · rw [if_neg hstorage, if_neg hstorage, ih]
      rfl

/-- Only variables cross the border. -/
theorem filter_crosses (is : List Instruction) :
    is.filter Instruction.crosses = (is.filter (·.opcode = .var)).filter Instruction.crosses := by
  rw [List.filter_filter]
  refine List.filter_congr fun i _ => ?_
  by_cases hop : i.opcode = .var <;> simp [Instruction.crosses, hop]

/-- The function of a method begins with the id of the record. -/
theorem Emitter.EmitsMethods.start {w : Emitter} {globals : List Variable} {ms : List Method}
    {fs : List Function} {code : List Instruction} (h : w.EmitsMethods globals ms fs code)
    {index : Nat} {f : Function} (hf : fs[index]? = some f) :
    ∃ code' start, (cutFunctions code)[index]? = some code' ∧ code'.head? = some start ∧
      start.opcode = .function ∧ start.resultId = some f.id := by
  induction h generalizing index with
  | nil => cases hf
  | cons hm _ ih =>
    rw [cutFunctions_append hm.isFunction]
    cases index with
    | zero =>
      obtain rfl : _ = f := Option.some.inj hf
      obtain ⟨start, label, vars, body, terminator, rfl, hop, hid, -⟩ := hm.hasForm.form
      exact ⟨_, start, rfl, rfl, hop, hid⟩
    | succ index => exact ih hf

/-- The check finds the entry point. -/
theorem Program.entryIndex_of_check {p : Program} {i : Nat} (h : p.check = .ok i) :
    p.entryIndex? = some i := by
  unfold check at h
  split at h
  · cases h
  split at h
  · cases h
  split at h
  · rename_i hindex
    cases h
    exact hindex
  · cases h

/-- The module is entered at the function with the id `f`, which is the one at position `index`:
some entry point names it, none names another, each goes on with the whole interface, and every
execution mode is about it. -/
structure Module.EnteredAt (m : Module) (index : Nat) (f : Id) : Prop where
  start : ∃ code start, m.functions[index]? = some code ∧ code.head? = some start ∧
    start.opcode = .function ∧ start.resultId = some f
  distinct : m.interface.Nodup
  entered : ∃ i ∈ m.instructions, i.opcode = .entryPoint
  entryPoints : ∀ i ∈ m.instructions, i.opcode = .entryPoint →
    i.operands[1]? = some f ∧ (i.literal 2).1 = Literal.bytesOf "main" ∧
      i.operands.drop (2 + (i.literal 2).2.toNat) = m.interface
  executionModes : ∀ i ∈ m.instructions, i.opcode = .executionMode → i.operands[0]? = some f

/-- The interface of an emitted module is the one that was kept while the fields were declared. -/
theorem Program.Arranged.interface_eq {p : Program} {o : Options} {c : Compilation}
    (h : p.Arranged o c) (hdeclarations : c.emitter.toModule.declarations =
      c.emitter.draft.emitted .globals) :
    c.emitter.toModule.interface = c.interface := by
  rw [Module.interface, hdeclarations, filter_crosses, h.interface]
  exact filterMap_crosses h.vars

/-- No variable is listed twice. -/
theorem nodup_crossing {vs : List Variable} (h : (vs.map Variable.id).Nodup) :
    (crossing vs).Nodup :=
  h.sublist (List.filter_sublist.map Variable.id)

/-- What was emitted from a program is entered as stated. -/
theorem Program.Arranged.enteredAt {p : Program} {o : Options} {c : Compilation}
    (h : p.Arranged o c) (hfilled : c.emitter.draft.WellFilled)
    (hmethods : c.emitter.EmitsMethods c.record.globals p.methods c.record.functions c.emitter.code)
    (hdistinct : (c.record.globals.map Variable.id).Nodup) :
    ∃ index f, p.entryIndex? = some index ∧ c.record.functions[index]? = some f ∧
      c.emitter.toModule.EnteredAt index f.id := by
  obtain ⟨index, f, file, hcheck, hf, -, -, -, hentry, hmodes, -⟩ := h.reserved
  obtain ⟨hstage, -, m, hm, hname⟩ := entry_of_check hcheck
  obtain ⟨-, hdeclarations, hfunctions⟩ := Emitter.parts_eq hfilled hmethods
  have hinterface := h.interface_eq hdeclarations
  have hfname : f.name = entryPointName := by
    obtain ⟨f', hf', hname'⟩ := Function.exists_of_names h.functions hm
    obtain rfl : f = f' := Option.some.inj (hf.symm.trans hf')
    rw [hname', hname]
  rw [hfname] at hentry
  refine ⟨index, f, entryIndex_of_check hcheck, hf, ?_⟩
  constructor
  case start =>
    rw [hfunctions]
    exact hmethods.start hf
  case distinct =>
    rw [hinterface, h.interface]
    exact nodup_crossing hdistinct
  case entered =>
    -- The check refuses stages without execution models, so there is an entry point.
    have hmodels : p.stage.models ≠ [] := by
      intro hnil
      obtain ⟨code, hcode⟩ := models_isEmpty_iff.mp (List.isEmpty_iff.mpr hnil)
      exact hstage code hcode
    obtain ⟨model, hmodel⟩ := List.exists_mem_of_ne_nil _ hmodels
    have hmem := List.mem_map_of_mem (f := fun model => Instruction.mk .entryPoint
      (model :: f.id :: Literal.ofString entryPointName ++ c.interface)) hmodel
    rw [← hentry] at hmem
    rw [Draft.instructions_toModule]
    exact ⟨_, List.mem_flatMap.mpr ⟨.entryPoints, by decide, hmem⟩, rfl⟩
  case entryPoints =>
    intro i hi hop
    rw [Draft.instructions_toModule] at hi
    have hmem : i ∈ c.emitter.draft.emitted .entryPoints := by
      refine hfilled.mem_emitted_of_opcode hi ?_
      rw [hop]
      decide
    rw [hentry] at hmem
    obtain ⟨model, -, rfl⟩ := List.mem_map.mp hmem
    rw [hinterface]
    exact ⟨rfl, literal_entryPoint model f.id _⟩
  case executionModes =>
    intro i hi hop
    rw [Draft.instructions_toModule] at hi
    have hmem : i ∈ c.emitter.draft.emitted .executionModes := by
      refine hfilled.mem_emitted_of_opcode hi ?_
      rw [hop]
      decide
    rw [hmodes] at hmem
    obtain ⟨mode, -, rfl⟩ := List.mem_map.mp hmem
    rfl

/-- A compiled module is entered at the function of the first method called `main`, and its
interface is the list of its input and output variables, in the order of the fields. The record
tells the same interface. -/
theorem entryPoint_of_compile {p : Program} {o : Options} {words : List Word}
    (hids : p.idsTaken o < idLimit) (h : (compile (some p) o).words = .ok words) :
    ∃ m index f e, Module.decode words = .ok m ∧
      p.methods.findIdx? (·.name = "main") = some index ∧
      (compile (some p) o).record.functions[index]? = some f ∧ m.EnteredAt index f.id ∧
      (compile (some p) o).record.entryPoint = some e ∧ e.function = f.id ∧
      e.interface = m.interface ∧
      List.Forall₂ Field.DeclaredAs p.fields (compile (some p) o).record.globals ∧
      List.Forall₂ Variable.DeclaredBy (compile (some p) o).record.globals
        (m.declarations.filter (·.opcode = .var)) := by
  obtain ⟨c, hrun, hwords, hrecord⟩ := emitModule_of_compile h
  have hemitted := emittedAs_of_emitModule p.named_all hids hrun hwords
  have harranged := Program.arranged_of_emitModule hrun
  have hfilled := hemitted.consistent.filled
  obtain ⟨index, f, hindex, hf, hentered⟩ :=
    harranged.enteredAt hfilled hemitted.methods hemitted.distinct
  obtain ⟨-, hdeclarations, -⟩ := Emitter.parts_eq hfilled hemitted.methods
  obtain ⟨index', f', file, hcheck, hf', -, hentry, -⟩ := harranged.entry
  obtain rfl : index = index' :=
    Option.some.inj (hindex.symm.trans (Program.entryIndex_of_check hcheck))
  obtain rfl : f = f' := Option.some.inj (hf.symm.trans hf')
  rw [hrecord]
  refine ⟨c.emitter.toModule, index, f, _, hemitted.decoded, hindex, hf, hentered, hentry, rfl, ?_,
    harranged.fields, ?_⟩
  · exact (harranged.interface_eq hdeclarations).symm
  · rw [hdeclarations]
    exact harranged.vars

theorem entryPoint_of_compile_tint : ∃ words m f, (compile (some .tint) {}).words = .ok words ∧
    Module.decode words = .ok m ∧ m.EnteredAt 1 f := by
  obtain ⟨words, hwords⟩ := compile_tint
  obtain ⟨m, index, f, e, hm, hindex, -, hentered, -⟩ := entryPoint_of_compile idsTaken_tint hwords
  obtain rfl : 1 = index := Option.some.inj hindex
  exact ⟨words, m, f.id, hwords, hm, hentered⟩

end ShaderStage
