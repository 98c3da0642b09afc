import ShaderStage.CompileError
import ShaderStage.Module.Draft
import ShaderStage.Ty.Key

/-! # The emitter

The state in which code is emitted: the draft of the module, the types and constants already
emitted, and what is known about each id. A step that fails keeps what it emitted before. -/

namespace ShaderStage

/-- The type and debug name of an id. -/
structure Binding where
  key : Key
  name : String
deriving DecidableEq

/-- The state in which code is emitted. -/
structure Emitter where
  draft : Draft
  /-- The ids of types, by signature. -/
  types : List (String × Id) := []
  /-- The ids of unsigned constants, by value. -/
  uints : List (Word × Id) := []
  /-- The ids of float constants, by bit pattern. -/
  floats : List (Word × Id) := []
  /-- The ids of function types, by the id of the result type. -/
  functionTypes : List (Id × Id) := []
  /-- The structure types decorated as blocks. -/
  blocks : List Id := []
  /-- What is known about ids, the latest first. -/
  bindings : List (Id × Binding) := []
  /-- The id of the mathematical instruction set. -/
  mathSet : Option Id := none
deriving DecidableEq

/-- An emitter with nothing emitted. -/
def Emitter.start (version : Version) : Emitter :=
  { draft := { version } }

/-- Steps that emit code. -/
abbrev Emit := EStateM Failure Emitter

namespace Emit

/-- Stops because the program is refused. -/
def refuse {α : Type} (e : CompileError) : Emit α :=
  throw (.refused e)

/-- A new id. -/
def fresh : Emit Id := do
  match (← get).draft.ids.take with
  | .error fault => throw (.fault fault)
  | .ok (id, ids) =>
    modify fun s => { s with draft := { s.draft with ids } }
    return id

/-- Adds an instruction to a section. -/
def instruction (part : Section) (opcode : Opcode) (operands : List Word) : Emit Unit :=
  modify fun s => { s with draft := s.draft.emit part ⟨opcode, operands⟩ }

/-- Adds an instruction whose result is its first operand. -/
def result (part : Section) (opcode : Opcode) (operands : List Word) : Emit Id := do
  let id ← fresh
  instruction part opcode (id :: operands)
  return id

/-- Adds an instruction whose result follows its result type. -/
def typedResult (part : Section) (opcode : Opcode) (type : Id) (operands : List Word) :
    Emit Id := do
  let id ← fresh
  instruction part opcode (type :: id :: operands)
  return id

/-! ### Module scope -/

/-- Declares a capability, unless it is declared already. -/
def capability (c : Capability) : Emit Unit := do
  unless (← get).draft.declares c do
    instruction .capabilities .capability [c]

def extension (name : String) : Emit Unit :=
  instruction .extensions .extension (Literal.ofString name)

def extInstImport (name : String) : Emit Id :=
  result .instructionSets .extInstImport (Literal.ofString name)

def memoryModel (addressing memory : Word) : Emit Unit :=
  instruction .memoryModel .memoryModel [addressing, memory]

def entryPoint (model : ExecutionModel) (function : Id) (name : String) (interface : List Id) :
    Emit Unit :=
  instruction .entryPoints .entryPoint (model :: function :: Literal.ofString name ++ interface)

def executionMode (function : Id) (mode : ExecutionMode) (parameters : List Word) : Emit Unit :=
  instruction .executionModes .executionMode (function :: mode :: parameters)

/-- Records a text for debugging. -/
def string (text : String) : Emit Id :=
  result .sources .string (Literal.ofString text)

/-- Records the source language; `file` zero stands for no file. -/
def source (language version : Word) (file : Id) : Emit Unit :=
  instruction .sources .source (language :: version :: if file = 0 then [] else [file])

def sourceExtension (name : String) : Emit Unit :=
  instruction .sources .sourceExtension (Literal.ofString name)

/-- Gives an id a debug name. -/
def name (id : Id) (name : String) : Emit Unit :=
  instruction .names .name (id :: Literal.ofString name)

/-- Gives a member of a structure type a debug name. -/
def memberName (struct : Id) (member : Word) (name : String) : Emit Unit :=
  instruction .names .memberName (struct :: member :: Literal.ofString name)

def decorate (id : Id) (decoration : Decoration) (parameters : List Word) : Emit Unit :=
  instruction .decorations .decorate (id :: decoration :: parameters)

def memberDecorate (struct : Id) (member : Word) (decoration : Decoration)
    (parameters : List Word) : Emit Unit :=
  instruction .memberDecorations .memberDecorate (struct :: member :: decoration :: parameters)

/-! ### Types, constants and global variables -/

def typeVoid : Emit Id := result .globals .typeVoid []

def typeBool : Emit Id := result .globals .typeBool []

def typeFloat (width : Word) : Emit Id := result .globals .typeFloat [width]

def typeInt (width : Word) (signed : Bool) : Emit Id :=
  result .globals .typeInt [width, if signed then 1 else 0]

def typeVector (component : Id) (count : Word) : Emit Id :=
  result .globals .typeVector [component, count]

def typeMatrix (column : Id) (count : Word) : Emit Id :=
  result .globals .typeMatrix [column, count]

/-- An array type; its length is the id of a constant. -/
def typeArray (elem length : Id) : Emit Id :=
  result .globals .typeArray [elem, length]

def typeImage (sampledType : Id) (dim depth arrayed multisampled sampled format : Word) :
    Emit Id :=
  result .globals .typeImage [sampledType, dim, depth, arrayed, multisampled, sampled, format]

def typeSampledImage (image : Id) : Emit Id :=
  result .globals .typeSampledImage [image]

def typePointer (storage : StorageClass) (pointee : Id) : Emit Id :=
  result .globals .typePointer [storage, pointee]

def typeFunction (returnType : Id) (parameters : List Id) : Emit Id :=
  result .globals .typeFunction (returnType :: parameters)

def typeStruct (members : List Id) : Emit Id :=
  result .globals .typeStruct members

def constant (type : Id) (value : List Word) : Emit Id :=
  typedResult .globals .constant type value

def globalVariable (type : Id) (storage : StorageClass) : Emit Id :=
  typedResult .globals .var type [storage]

/-! ### Function bodies -/

def localVariable (type : Id) : Emit Id :=
  typedResult .functions .var type [StorageClass.function]

def function (type returnType : Id) (control : Word) : Emit Id :=
  typedResult .functions .function returnType [control, type]

def label : Emit Id := result .functions .label []

def ret : Emit Unit := instruction .functions .ret []

def returnValue (value : Id) : Emit Unit := instruction .functions .returnValue [value]

def functionEnd : Emit Unit := instruction .functions .functionEnd []

def binaryOp (opcode : Opcode) (type left right : Id) : Emit Id :=
  typedResult .functions opcode type [left, right]

def loadOp (type pointer : Id) : Emit Id :=
  typedResult .functions .load type [pointer]

def storeOp (pointer value : Id) : Emit Unit :=
  instruction .functions .store [pointer, value]

/-- Points into a composite; the indices are ids of constants. -/
def accessChainOp (type base : Id) (indices : List Id) : Emit Id :=
  typedResult .functions .accessChain type (base :: indices)

def constructOp (type : Id) (parts : List Id) : Emit Id :=
  typedResult .functions .compositeConstruct type parts

/-- Takes a component of a composite; the indices are literals. -/
def extractOp (type composite : Id) (indices : List Word) : Emit Id :=
  typedResult .functions .compositeExtract type (composite :: indices)

def extInstOp (type set : Id) (number : Word) (operands : List Id) : Emit Id :=
  typedResult .functions .extInst type (set :: number :: operands)

/-! ### Bindings -/

/-- Records the type and name of an id. -/
def bind (id : Id) (key : Key) (name : String) : Emit Unit :=
  modify fun s => { s with bindings := (id, ⟨key.normalize, name⟩) :: s.bindings }

/-- What is known about an id. -/
def binding (id : Id) : Emit Binding := do
  match (← get).bindings.lookup id with
  | some b => return b
  | none => refuse (.unbound id)

/-- Changes the name of an id and, unless it is empty, emits it. -/
def rename (id : Id) (newName : String) : Emit Unit := do
  let b ← binding id
  modify fun s => { s with bindings := (id, { b with name := newName }) :: s.bindings }
  unless newName = "" do name id newName

/-- The words of the module; no more ids can be had afterwards. -/
def assemble : Emit (List Word) := do
  let (words, draft) := (← get).draft.assemble
  modify fun s => { s with draft }
  match words with
  | .error fault => throw (.fault fault)
  | .ok words => return words

end Emit

end ShaderStage
