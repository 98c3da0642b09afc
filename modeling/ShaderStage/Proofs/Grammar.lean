import ShaderStage.Proofs.Arrangement
import ShaderStage.Proofs.Scoping

/-! # The grammar of compiled modules

A compiled module is a sequence of parts in one fixed order. Which instructions each part has is
read off the program and its options: one extension for each that was asked for, one entry point for
each execution model, one variable for each field, one function for each method. Instructions are
emitted in a different order, and types and constants from inside of functions; none of that
shows.

* `Arrangement.IsOf`: how the parts of a module follow from a program;
* `grammar_of_compile`: a compiled module is arranged like this. -/

namespace ShaderStage

/-! ## Functions -/

/-- The opcode that ends the code of a method. -/
def Method.terminator (m : Method) : Opcode :=
  if m.result.isVoid then .ret else .returnValue

/-- The code of a method as a function: its start, a label, a variable for each local, instructions
that neither declare nor end anything, one terminator, and its end. -/
structure Method.HasForm (m : Method) (f : Function) (code : List Instruction) : Prop where
  name : f.name = m.name
  keys : f.locals.map Variable.key = m.locals.map fun l => (Key.pointer l.type .function).normalize
  form : ∃ start label vars body terminator,
    code = start :: label :: (vars ++ body ++ [terminator, ⟨.functionEnd, []⟩]) ∧
    start.opcode = .function ∧ start.resultId = some f.id ∧ label.opcode = .label ∧
    List.Forall₂ (fun v i => i.opcode = .var ∧ i.resultId = some v.id) f.locals vars ∧
    (∀ i ∈ body, i.opcode ∈ Section.functions.opcodes ∧
      i.opcode ∉ [.function, .label, .var, .ret, .returnValue, .functionEnd]) ∧
    terminator.opcode = m.terminator

namespace Emitter

variable {w : Emitter} {globals : List Variable}

/-- The operations of a body end nothing until one of them returns, and that is the last. -/
theorem EmitsAll.terminator {Γ : Scope} {ops : List Operation} {progress progress' : Progress}
    {code ending : List Instruction} (h : w.EmitsAll Γ progress ops code progress')
    (hending : EmitsEnding Γ.method progress' ending) :
    (progress = .returned → code ++ ending = []) ∧
      (progress ≠ .returned → ∃ body terminator, code ++ ending = body ++ [terminator] ∧
        (∀ i ∈ body, i.opcode ∈ Progress.opcodes (.running [])) ∧
        terminator.opcode = Γ.method.terminator) := by
  induction h with
  | nil =>
    -- A body that does not return is ended by the method, which must then be void.
    cases hending with
    | returned => exact ⟨fun _ => rfl, fun h => absurd rfl h⟩
    | running hvoid => exact ⟨nofun, fun _ => ⟨[], _, rfl, nofun, (if_pos hvoid).symm⟩⟩
  | @cons st op ops code code' progress progress' hop _ ih =>
    refine ⟨nofun, fun _ => ?_⟩
    obtain ⟨hreturned, hrunning⟩ := ih hending
    cases progress with
    | running stack =>
      obtain ⟨body, terminator, heq, hbody, hterminator⟩ := hrunning nofun
      refine ⟨code ++ body, terminator, ?_, ?_, hterminator⟩
      · rw [List.append_assoc, heq, List.append_assoc]
      · exact List.forall_mem_append.mpr ⟨hop.opcode_mem, hbody⟩
    | returned =>
      -- Nothing comes after a return, so the instruction of this operation is the last one.
      rw [List.append_assoc, hreturned rfl, List.append_nil]
      cases hop with
      | ret hvoid => exact ⟨[], _, rfl, nofun, (if_pos hvoid).symm⟩
      | retValue hvoid =>
        refine ⟨[], _, rfl, nofun, (if_neg ?_).symm⟩
        rw [hvoid]
        nofun

/-- Each local is one variable of the function. -/
theorem DeclaresLocals.forall₂ {ls : List Local} {vs : List Variable} {code : List Instruction}
    (h : w.DeclaresLocals ls vs code) :
    List.Forall₂ (fun v i => i.opcode = .var ∧ i.resultId = some v.id) vs code := by
  induction h with
  | nil => exact .nil
  | cons _ _ _ _ _ ih => exact .cons ⟨rfl, rfl⟩ ih

/-- A method becomes a function of the stated form. -/
theorem EmitsMethod.hasForm {m : Method} {f : Function} {code : List Instruction}
    (h : w.EmitsMethod globals m f code) : m.HasForm f code := by
  have hplain : ∀ op ∈ Progress.opcodes (.running []), op ∈ Section.functions.opcodes ∧
      op ∉ [.function, .label, .var, .ret, .returnValue, .functionEnd] := by decide
  cases h with
  | @intro F l declarations body ending progress hname _ _ hlocals hbody hending =>
    obtain ⟨plain, terminator, heq, hops, hterminator⟩ := (hbody.terminator hending).2 nofun
    refine ⟨hname, hlocals.keys, ⟨.function, [f.returnType, f.id, 0, F]⟩, ⟨.label, [l]⟩,
      declarations, plain, terminator, ?_, rfl, rfl, rfl, hlocals.forall₂,
      fun i hi => hplain _ (hops i hi), hterminator⟩
    rw [List.append_assoc declarations, heq]
    simp only [List.append_assoc, List.singleton_append]

/-- The code of methods is the code of each, one after the other. -/
theorem EmitsMethods.hasForm {ms : List Method} {fs : List Function} {code : List Instruction}
    (h : w.EmitsMethods globals ms fs code) :
    (cutFunctions code).length = ms.length ∧
      List.Forall₂ (fun m x => m.HasForm x.1 x.2) ms (fs.zip (cutFunctions code)) := by
  induction h with
  | nil => exact ⟨rfl, .nil⟩
  | cons hm _ ih =>
    rw [cutFunctions_append hm.isFunction]
    exact ⟨congrArg Nat.succ ih.1, .cons hm.hasForm ih.2⟩

end Emitter

/-! ## Modules -/

/-- The parts of a module, in their order. -/
structure Arrangement where
  capabilities : List Instruction
  extensions : List Instruction
  imports : List Instruction
  memoryModel : Instruction
  entryPoints : List Instruction
  executionModes : List Instruction
  sources : List Instruction
  names : List Instruction
  decorations : List Instruction
  memberDecorations : List Instruction
  declarations : List Instruction
  functions : List (List Instruction)

namespace Arrangement

/-- The instructions of a module, part by part. -/
def instructions (a : Arrangement) : List Instruction :=
  a.capabilities ++ a.extensions ++ a.imports ++ [a.memoryModel] ++ a.entryPoints ++
    a.executionModes ++ a.sources ++ a.names ++ a.decorations ++ a.memberDecorations ++
    a.declarations ++ a.functions.flatten

/-- The parts are those of the module of a program. -/
structure IsOf (a : Arrangement) (p : Program) (o : Options) (r : Record) : Prop where
  capabilities : a.capabilities ≠ [] ∧ ∀ i ∈ a.capabilities, i.opcode = .capability
  extensions : a.extensions = o.extensions.map fun name => ⟨.extension, Literal.ofString name⟩
  imports : a.imports.length ≤ 1 ∧ ∀ i ∈ a.imports, i.opcode = .extInstImport
  imported : a.imports ≠ [] ↔ ∃ i ∈ a.instructions, i.opcode = .extInst
  memoryModel : a.memoryModel = ⟨.memoryModel, [logicalAddressing, glsl450Memory]⟩
  entryPoints : List.Forall₂ (fun model i => i.opcode = .entryPoint ∧ i.operands.head? = some model)
    p.stage.models a.entryPoints
  executionModes :
    List.Forall₂ (fun mode i => ∃ f, i = ⟨.executionMode, f :: mode.1 :: mode.2⟩)
      (p.options.modes p.stage) a.executionModes
  sources : ∃ file : Option Id, (file.isSome ↔ o.sourceFile ≠ "") ∧
    a.sources =
      (file.toList.map fun id => ⟨.string, id :: Literal.ofString o.sourceFile⟩) ++
        [⟨.source, glslSource :: sourceVersion :: file.toList⟩] ++
        sourceExtensions.map fun name => ⟨.sourceExtension, Literal.ofString name⟩
  names : ∀ i ∈ a.names, i.opcode = .name ∨ i.opcode = .memberName
  decorations : ∀ i ∈ a.decorations, i.opcode = .decorate
  memberDecorations : ∀ i ∈ a.memberDecorations, i.opcode = .memberDecorate
  declarations : ∀ i ∈ a.declarations, i.opcode ∈ Section.globals.opcodes
  fields : List.Forall₂ Field.DeclaredAs p.fields r.globals
  vars : List.Forall₂ Variable.DeclaredBy r.globals (a.declarations.filter (·.opcode = .var))
  recorded : r.functions.length = p.methods.length
  separate : a.functions.length = p.methods.length
  functions : List.Forall₂ (fun m x => m.HasForm x.1 x.2) p.methods (r.functions.zip a.functions)

end Arrangement

/-- What is written to the reserved sections of a module. -/
theorem Program.Arranged.reserved {p : Program} {o : Options} {c : Compilation}
    (h : p.Arranged o c) :
    ∃ i f, ∃ file : Option Id, p.check = .ok i ∧ c.record.functions[i]? = some f ∧
      (file.isSome ↔ o.sourceFile ≠ "") ∧
      c.emitter.draft.emitted .extensions =
        (o.extensions.map fun name => ⟨.extension, Literal.ofString name⟩) ∧
      c.emitter.draft.emitted .memoryModel =
        [⟨.memoryModel, [logicalAddressing, glsl450Memory]⟩] ∧
      c.emitter.draft.emitted .entryPoints =
        (p.stage.models.map fun model => ⟨.entryPoint,
          model :: f.id :: Literal.ofString f.name ++ c.interface⟩) ∧
      c.emitter.draft.emitted .executionModes =
        ((p.options.modes p.stage).map fun mode => ⟨.executionMode, f.id :: mode.1 :: mode.2⟩) ∧
      c.emitter.draft.emitted .sources =
        (file.toList.map fun id => ⟨.string, id :: Literal.ofString o.sourceFile⟩) ++
          [⟨.source, glslSource :: sourceVersion :: file.toList⟩] ++
          sourceExtensions.map fun name => ⟨.sourceExtension, Literal.ofString name⟩ := by
  obtain ⟨i, f, file, hcheck, hf, hfile, -, hparts⟩ := h.entry
  refine ⟨i, f, file, hcheck, hf, hfile, ?_, ?_, ?_, ?_, ?_⟩
  all_goals
    rw [hparts _ (by decide)]
    simp [Options.preamble, Options.sources, entryStatements]

/-- The parts of the module that an emitter holds. -/
def Emitter.arrangement (w : Emitter) : Arrangement where
  capabilities := w.draft.emitted .capabilities
  extensions := w.draft.emitted .extensions
  imports := w.draft.emitted .instructionSets
  memoryModel := ⟨.memoryModel, [logicalAddressing, glsl450Memory]⟩
  entryPoints := w.draft.emitted .entryPoints
  executionModes := w.draft.emitted .executionModes
  sources := w.draft.emitted .sources
  names := w.draft.emitted .names
  decorations := w.draft.emitted .decorations
  memberDecorations := w.draft.emitted .memberDecorations
  declarations := w.draft.emitted .globals
  functions := cutFunctions w.code

/-- The sections in order are the module. -/
theorem Emitter.instructions_arrangement {w : Emitter}
    (h : w.draft.emitted .memoryModel = [⟨.memoryModel, [logicalAddressing, glsl450Memory]⟩]) :
    w.arrangement.instructions = w.draft.instructions := by
  have hcontents : w.draft.contents .memoryModel =
      [⟨.memoryModel, [logicalAddressing, glsl450Memory]⟩] := by
    rw [Draft.contents, if_pos rfl, h]
    rfl
  simp only [Arrangement.instructions, arrangement, flatten_cutFunctions, Draft.instructions,
    Section.order, List.flatMap_cons, List.flatMap_nil, List.append_nil, hcontents,
    List.append_assoc]
  rfl

/-- An instruction of a module whose opcode belongs to one section only is in that section. -/
theorem Draft.WellFilled.mem_emitted_of_opcode {d : Draft} (hd : d.WellFilled) {part : Section}
    {i : Instruction} (hi : i ∈ d.instructions)
    (hpart : ∀ part' ∈ Section.order, i.opcode ∈ part'.opcodes → part' = part) :
    i ∈ d.emitted part := by
  obtain ⟨part', horder, hi⟩ := List.mem_flatMap.mp hi
  have hlog := Draft.mem_contents hi
  rw [← hpart part' horder (hd.parts _ hlog)]
  exact Draft.mem_emitted.mpr hlog

/-- What was emitted from a program is arranged by it. -/
theorem Program.Arranged.isOf {p : Program} {o : Options} {c : Compilation} (h : p.Arranged o c)
    (hfilled : c.emitter.draft.WellFilled)
    (hmethods :
      c.emitter.EmitsMethods c.record.globals p.methods c.record.functions c.emitter.code) :
    c.emitter.draft.instructions = c.emitter.arrangement.instructions ∧
      c.emitter.arrangement.IsOf p o c.record := by
  obtain ⟨-, f, file, -, -, hfile, hextensions, hmemory, hentry, hmodes, hsources⟩ := h.reserved
  have hinstructions := Emitter.instructions_arrangement hmemory
  have hopcode : ∀ part, ∀ i ∈ c.emitter.draft.emitted part, i.opcode ∈ part.opcodes :=
    fun part i hi => hfilled.parts _ (Draft.mem_emitted.mp hi)
  obtain ⟨hseparate, hfunctions⟩ := hmethods.hasForm
  refine ⟨hinstructions.symm, ?_⟩
  constructor
  case capabilities =>
    obtain ⟨i, hi⟩ := h.capabilities
    refine ⟨List.ne_nil_of_mem (Draft.mem_emitted.mpr hi), fun j hj => ?_⟩
    exact List.mem_singleton.mp (hopcode .capabilities j hj)
  case extensions => exact hextensions
  case imports =>
    refine ⟨?_, fun i hi => List.mem_singleton.mp (hopcode .instructionSets i hi)⟩
    show (c.emitter.draft.emitted .instructionSets).length ≤ 1
    rw [h.imports.sets, List.length_map]
    exact Option.length_toList_le
  case imported =>
    have hset : c.emitter.draft.emitted .instructionSets ≠ [] ↔ c.emitter.mathSet.isSome := by
      rw [h.imports.sets]
      cases c.emitter.mathSet <;> simp
    rw [hinstructions]
    refine hset.trans (h.imports.used.trans ?_)
    constructor
    · rintro ⟨i, hi, hop⟩
      exact ⟨i, List.mem_flatMap.mpr ⟨.functions, by decide, hi⟩, hop⟩
    · -- Calls of mathematical functions have no place outside of functions.
      rintro ⟨i, hi, hop⟩
      refine ⟨i, hfilled.mem_emitted_of_opcode hi ?_, hop⟩
      rw [hop]
      decide
  case memoryModel => rfl
  case entryPoints =>
    show List.Forall₂ _ _ (c.emitter.draft.emitted .entryPoints)
    rw [hentry, List.forall₂_map_right_iff]
    exact List.forall₂_same.mpr fun _ _ => ⟨rfl, rfl⟩
  case executionModes =>
    show List.Forall₂ _ _ (c.emitter.draft.emitted .executionModes)
    rw [hmodes, List.forall₂_map_right_iff]
    exact List.forall₂_same.mpr fun _ _ => ⟨f.id, rfl⟩
  case sources => exact ⟨file, hfile, hsources⟩
  case names => exact fun i hi => List.mem_pair.mp (hopcode .names i hi)
  case decorations => exact fun i hi => List.mem_singleton.mp (hopcode .decorations i hi)
  case memberDecorations =>
    exact fun i hi => List.mem_singleton.mp (hopcode .memberDecorations i hi)
  case declarations => exact hopcode .globals
  case fields => exact h.fields
  case vars => exact h.vars
  case recorded => exact hmethods.length_eq
  case separate => exact hseparate
  case functions => exact hfunctions

/-- A compiled module follows the grammar: its parts in order, each with what the program, its
options and the record of its compilation say. -/
theorem grammar_of_compile {p : Program} {o : Options} {words : List Word}
    (hids : p.idsTaken o < idLimit) (h : (compile (some p) o).words = .ok words) :
    ∃ m a, Module.decode words = .ok m ∧ m.instructions = Arrangement.instructions a ∧
      a.IsOf p o (compile (some p) o).record := by
  obtain ⟨c, hrun, hwords, hrecord⟩ := emitModule_of_compile h
  have hemitted := emittedAs_of_emitModule p.named_all hids hrun hwords
  have harranged := Program.arranged_of_emitModule hrun
  obtain ⟨hinstructions, hof⟩ := harranged.isOf hemitted.consistent.filled hemitted.methods
  rw [hrecord]
  refine ⟨_, _, hemitted.decoded, ?_, hof⟩
  rw [Draft.instructions_toModule, hinstructions]

theorem grammar_of_compile_tint : ∃ words m a, (compile (some .tint) {}).words = .ok words ∧
    Module.decode words = .ok m ∧ m.instructions = Arrangement.instructions a ∧
    a.IsOf .tint {} (compile (some .tint) {}).record := by
  obtain ⟨words, hwords⟩ := compile_tint
  obtain ⟨m, a, hm, hinstructions, hof⟩ := grammar_of_compile idsTaken_tint hwords
  exact ⟨words, m, a, hwords, hm, hinstructions, hof⟩

end ShaderStage
