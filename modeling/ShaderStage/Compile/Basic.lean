import ShaderStage.Compile.Body
import ShaderStage.Compile.Layout

/-! # Compilation

A program becomes a module: fixed declarations, a variable for each field, a function for each
method, and entry points for the method called `main`. The record of a compilation tells what was
made of the program, also when the compilation stops half-way. -/

namespace ShaderStage

/-- Options of a compilation. -/
structure Options where
  version : Version := .default
  /-- Capabilities to declare besides the needed ones. -/
  capabilities : List Capability := []
  extensions : List String := []
  /-- The name of the source file; empty for none. -/
  sourceFile : String := ""
deriving DecidableEq

/-- The version of the module; version 0.0 stands for the default. -/
def Options.moduleVersion (o : Options) : Version :=
  if o.version = ⟨0, 0⟩ then .default else o.version

/-- The execution models of a stage. -/
def Stage.models : Stage → List ExecutionModel
  | .vertex => [.vertex]
  | .fragment => [.fragment]
  | .geometry => [.geometry]
  | .tessellation => [.tessellationControl, .tessellationEvaluation]
  | .compute => [.glCompute]
  | .unknown _ => []

/-- The capabilities of a stage. -/
def Stage.capabilities : Stage → List Capability
  | .geometry => [.shader, .geometry]
  | .tessellation => [.shader, .tessellation]
  | _ => [.shader]

/-- The method that a stage starts in, for each of its execution models. -/
structure EntryPoint where
  models : List ExecutionModel
  function : Id
  name : String
  interface : List Id
deriving DecidableEq

/-- The record of a compilation. -/
structure Record where
  globals : List Variable := []
  functions : List Function := []
  entryPoint : Option EntryPoint := none
  warnings : List Warning := []
deriving DecidableEq

/-- The state of a compilation. -/
structure Compilation where
  emitter : Emitter
  record : Record := {}
  /-- The variables that the entry point will list, as far as they are declared. -/
  interface : List Id := []
deriving DecidableEq

/-- Steps of a compilation. -/
abbrev Compile := EStateM Failure Compilation

namespace Compile

/-- Emits code. -/
def emit {α : Type} (x : Emit α) : Compile α := fun c =>
  match x.run c.emitter with
  | .ok a emitter => .ok a { c with emitter }
  | .error e emitter => .error e { c with emitter }

/-- Adds to the record. -/
def note (f : Record → Record) : Compile Unit :=
  modify fun c => { c with record := f c.record }

/-- Lists the variable of an input or output in the interface, unless its type moves it to another
storage class than its layout asks for. -/
def enlist (r : Resolution) (v : Variable) : Compile Unit :=
  modify fun c =>
    { c with
      interface := c.interface ++ if r.interface ∧ v.storage = r.storage then [v.id] else [] }

end Compile

/-- The decorations that a layout asks for, in order. -/
def Resolution.decorations (r : Resolution) : List (Decoration × Word) :=
  (r.descriptorSet.map (.descriptorSet, ·)).toList ++ (r.binding.map (.binding, ·)).toList ++
    (r.location.map (.location, ·)).toList ++ (r.builtIn.map (.builtIn, ·)).toList

/-- Decorates a variable as its layout asks. -/
def Resolution.decorate (r : Resolution) (id : Id) : Emit Unit :=
  r.decorations.forM fun (decoration, value) => Emit.decorate id decoration [value]

namespace Field

/-- The key of the pointer to a field. -/
def key (field : Field) (r : Resolution) : Key :=
  (Key.pointer field.type r.storage).normalize

/-- Marks the type of a uniform or push constant as a block, if it is a structure. -/
def markBlock (field : Field) (storage : StorageClass) : Emit Unit := do
  if storage = .uniform ∨ storage = .pushConstant then
    if let .struct .. := field.type then
      let struct ← Emit.typeId field.type .none
      Emit.markBlock struct

/-- Declares the variable of a field. -/
def declare (field : Field) (r : Resolution) : Emit Variable := do
  let key := field.key r
  let type ← Emit.keyId key
  let id ← Emit.globalVariable type key.storage
  Emit.name id field.name
  Emit.bind id key field.name
  field.markBlock key.storage
  r.decorate id
  r.capabilities.forM Emit.capability
  return {
    id, key
    name := field.name
    location := r.location
    binding := r.binding
    descriptorSet := r.descriptorSet
    builtIn := r.builtIn
    pushConstant := r.pushConstant }

end Field

namespace StageOptions

/-- The execution mode of an input primitive. -/
def inputMode (o : StageOptions) : ExecutionMode :=
  match o.inputPrimitive with
  | .points => .inputPoints
  | .lines => .inputLines
  | .linesAdjacency => .inputLinesAdjacency
  | .triangles => .triangles
  | .trianglesAdjacency => .inputTrianglesAdjacency

/-- The execution mode of an output primitive. -/
def outputMode (o : StageOptions) : ExecutionMode :=
  match o.outputPrimitive with
  | .points => .outputPoints
  | .lineStrip => .outputLineStrip
  | .triangleStrip => .outputTriangleStrip

/-- A number, or its default if it is zero. -/
def orDefault (n default : UInt32) : UInt32 :=
  if n = 0 then default else n

/-- The execution modes of a stage, with their parameters. -/
def modes (o : StageOptions) : Stage → List (ExecutionMode × List Word)
  | .fragment =>
    [(if o.origin = .lowerLeft then .originLowerLeft else .originUpperLeft, [])] ++
    (if o.pixelCenterInteger then [(.pixelCenterInteger, [])] else []) ++
    (if o.earlyFragmentTests then [(.earlyFragmentTests, [])] else [])
  | .geometry =>
    [(o.inputMode, []), (.invocations, [1]), (o.outputMode, []),
     (.outputVertices, [o.maxVertices])]
  | .tessellation =>
    [(.outputVertices, [orDefault o.patchVertices 3]), (.triangles, [])]
  | .compute =>
    [(.localSize,
      [orDefault o.workgroup.x 1, orDefault o.workgroup.y 1, orDefault o.workgroup.z 1])]
  | _ => []

end StageOptions

/-- The version of the source language recorded in every module. -/
def sourceVersion : Word := 400

/-- The source extensions recorded in every module. -/
def sourceExtensions : List String :=
  ["GL_ARB_separate_shader_objects", "GL_ARB_shading_language_420pack"]

namespace Program

/-- The position of the method that the stage starts in. -/
def entryIndex? (p : Program) : Option Nat :=
  p.methods.findIdx? (·.name = entryPointName)

/-- Checks what has to hold before anything is emitted; returns the position of the entry point. -/
def check (p : Program) : Except CompileError Nat :=
  if p.stage.models.isEmpty then .error (.unknownStage p.name p.stage.code)
  else if p.stage = .geometry ∧ p.options.maxVertices = 0 then .error (.noVertexCount p.name)
  else
    match p.entryIndex? with
    | some index => .ok index
    | none => .error (.noEntryPoint p.name)

/-- Emits what is the same for all programs of a stage. -/
def emitPreamble (p : Program) (o : Options) : Emit Unit := do
  p.stage.capabilities.forM Emit.capability
  o.capabilities.forM Emit.capability
  o.extensions.forM Emit.extension
  Emit.memoryModel logicalAddressing glsl450Memory
  let file ← if o.sourceFile = "" then pure 0 else Emit.string o.sourceFile
  Emit.source glslSource sourceVersion file
  sourceExtensions.forM Emit.sourceExtension

/-- Declares the variables of fields. -/
def declareFields : List Field → Compile Unit
  | [] => return
  | field :: rest => do
    Compile.note fun r => { r with warnings := r.warnings ++ field.warnings }
    let resolution ← Compile.emit (Emit.check field.resolve)
    let v ← Compile.emit (field.declare resolution)
    Compile.enlist resolution v
    Compile.note fun r => { r with globals := r.globals ++ [v] }
    declareFields rest

/-- Emits methods. -/
def emitMethods : List Method → Compile Unit
  | [] => return
  | m :: rest => do
    let function ← Compile.emit (m.emit (← get).record.globals)
    Compile.note fun r => { r with functions := r.functions ++ [function] }
    emitMethods rest

/-- Emits the entry points of a function and their execution modes. -/
def emitEntryPoint (p : Program) (f : Function) : Compile Unit := do
  let interface := (← get).interface
  p.stage.models.forM fun model => Compile.emit (Emit.entryPoint model f.id f.name interface)
  Compile.note fun r =>
    { r with entryPoint := some ⟨p.stage.models, f.id, f.name, interface⟩ }
  (p.options.modes p.stage).forM fun (mode, parameters) =>
    Compile.emit (Emit.executionMode f.id mode parameters)

/-- Emits the module of a program. -/
def emitModule (p : Program) (o : Options) : Compile Unit := do
  let entryIndex ← Compile.emit (Emit.check p.check)
  Compile.emit (p.emitPreamble o)
  declareFields p.fields
  emitMethods p.methods
  match (← get).record.functions[entryIndex]? with
  | some f => p.emitEntryPoint f
  | none => throw (.refused (.noEntryPoint p.name))

/-- Compiles a program to the words of a module. -/
def compile (p : Program) (o : Options) : Compile (List Word) := do
  p.emitModule o
  Compile.emit Emit.assemble

end Program

/-- What came of a compilation. -/
structure Outcome where
  words : Except Failure (List Word)
  record : Record

/-- Compiles a program, if there is one. -/
def compile (program : Option Program) (o : Options) : Outcome :=
  match program with
  | none => ⟨.error (.refused .noProgram), {}⟩
  | some p =>
    match (p.compile o).run { emitter := .start o.moduleVersion } with
    | .ok words c => ⟨.ok words, c.record⟩
    | .error failure c => ⟨.error failure, c.record⟩

/-- A compiler, good for one compilation. -/
inductive Compiler where
  | ready (options : Options)
  | used

/-- Compiles a program with a compiler that was not used before. -/
def Compiler.compile (c : Compiler) (program : Option Program) : Outcome × Compiler :=
  match c with
  | .ready options => (ShaderStage.compile program options, .used)
  | .used => (⟨.error (.refused .alreadyUsed), {}⟩, .used)

end ShaderStage
