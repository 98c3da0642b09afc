import ShaderStage.Ty.Basic

/-! # Programs

A program is one shader stage: its options, the fields it shares with the outside, and its methods,
whose bodies are operations on an operand stack. Where a numbered choice has no meaning the number
itself is kept. -/

namespace ShaderStage

/-- The pipeline stage that a program serves. -/
inductive Stage where
  | vertex
  | fragment
  | geometry
  | tessellation
  | compute
  | unknown (code : UInt8)
deriving DecidableEq

namespace Stage

def ofCode (code : UInt8) : Stage :=
  ([.vertex, .fragment, .geometry, .tessellation, .compute][code.toNat]?).getD (.unknown code)

def code : Stage → UInt8
  | .vertex => 0
  | .fragment => 1
  | .geometry => 2
  | .tessellation => 3
  | .compute => 4
  | .unknown code => code

def label : Stage → String
  | .vertex => "vertex"
  | .fragment => "fragment"
  | .geometry => "geometry"
  | .tessellation => "tessellation"
  | .compute => "compute"
  | .unknown _ => "unknown"

end Stage

/-- The corner in which fragment coordinates start. -/
inductive Origin where
  | upperLeft
  | lowerLeft
deriving DecidableEq

namespace Origin

def ofCode (code : UInt8) : Origin :=
  if code = 1 then .lowerLeft else .upperLeft

def code : Origin → UInt8
  | .upperLeft => 0
  | .lowerLeft => 1

end Origin

/-- The primitives that a geometry stage takes. -/
inductive InputPrimitive where
  | points
  | lines
  | linesAdjacency
  | triangles
  | trianglesAdjacency
deriving DecidableEq

namespace InputPrimitive

def ofCode (code : UInt8) : InputPrimitive :=
  ([.points, .lines, .linesAdjacency, .triangles, .trianglesAdjacency][code.toNat]?).getD .points

def code : InputPrimitive → UInt8
  | .points => 0
  | .lines => 1
  | .linesAdjacency => 2
  | .triangles => 3
  | .trianglesAdjacency => 4

end InputPrimitive

/-- The primitives that a geometry stage produces. -/
inductive OutputPrimitive where
  | points
  | lineStrip
  | triangleStrip
deriving DecidableEq

namespace OutputPrimitive

def ofCode (code : UInt8) : OutputPrimitive :=
  ([.points, .lineStrip, .triangleStrip][code.toNat]?).getD .points

def code : OutputPrimitive → UInt8
  | .points => 0
  | .lineStrip => 1
  | .triangleStrip => 2

end OutputPrimitive

/-- The size of a work group in each dimension. -/
structure Workgroup where
  x : UInt32 := 0
  y : UInt32 := 0
  z : UInt32 := 0
deriving DecidableEq

/-- Options of the stages; each stage looks at its own. -/
structure StageOptions where
  origin : Origin := .upperLeft
  pixelCenterInteger : Bool := false
  earlyFragmentTests : Bool := false
  inputPrimitive : InputPrimitive := .points
  outputPrimitive : OutputPrimitive := .points
  maxVertices : UInt32 := 0
  patchVertices : UInt32 := 0
  workgroup : Workgroup := {}
deriving DecidableEq

/-- The way data flows through a field. -/
inductive Direction where
  | privateData
  | input
  | output
  | unknown (code : UInt8)
deriving DecidableEq

namespace Direction

def ofCode (code : UInt8) : Direction :=
  ([.privateData, .input, .output][code.toNat]?).getD (.unknown code)

def code : Direction → UInt8
  | .privateData => 0
  | .input => 1
  | .output => 2
  | .unknown code => code

def label : Direction → String
  | .privateData => "private"
  | .input => "input"
  | .output => "output"
  | .unknown _ => "unknown"

end Direction

/-- A variable that the pipeline itself provides or consumes. -/
inductive Builtin where
  | position
  | pointSize
  | clipDistance
  | cullDistance
  | vertexIndex
  | instanceIndex
  | primitiveId
  | invocationId
  | layer
  | viewportIndex
  | tessLevelOuter
  | tessLevelInner
  | tessCoord
  | patchVertices
  | fragCoord
  | pointCoord
  | frontFacing
  | sampleId
  | samplePosition
  | sampleMask
  | fragDepth
  | helperInvocation
  | numWorkgroups
  | workgroupSize
  | workgroupId
  | localInvocationId
  | globalInvocationId
  | localInvocationIndex
  | unknown (code : UInt8)
deriving DecidableEq

namespace Builtin

/-- The built-ins with a meaning; the codes count from one. -/
def known : List Builtin :=
  [.position, .pointSize, .clipDistance, .cullDistance, .vertexIndex, .instanceIndex,
   .primitiveId, .invocationId, .layer, .viewportIndex, .tessLevelOuter, .tessLevelInner,
   .tessCoord, .patchVertices, .fragCoord, .pointCoord, .frontFacing, .sampleId,
   .samplePosition, .sampleMask, .fragDepth, .helperInvocation, .numWorkgroups, .workgroupSize,
   .workgroupId, .localInvocationId, .globalInvocationId, .localInvocationIndex]

/-- The built-in with a code; code zero is none at all. -/
def ofCode (code : UInt8) : Option Builtin :=
  if code = 0 then none else some ((known[code.toNat - 1]?).getD (.unknown code))

def code : Builtin → UInt8
  | .unknown code => code
  | b => .ofNat (known.findIdx (· = b) + 1)

end Builtin

/-- What a description says about the place of a field. -/
structure Layout where
  location : UInt32 := 0
  binding : Option UInt32 := none
  descriptorSet : UInt32 := 0
  align : Option UInt32 := none
  offset : Option UInt32 := none
  pushConstant : Bool := false
  builtin : Option Builtin := none
  specId : Option UInt32 := none
  direction : Direction := .privateData
deriving DecidableEq

/-- A variable of the whole stage. Without a layout it is private. -/
structure Field where
  /-- A UTF-8 text; no field has other bytes in its name. -/
  name : String
  type : Ty
  layout : Option Layout
deriving DecidableEq

/-- A function of one float or vector. -/
inductive MathFunction where
  | sin
  | cos
  | inverseSqrt
  | unknown (code : UInt8)
deriving DecidableEq

namespace MathFunction

def ofCode (code : UInt8) : MathFunction :=
  ([.sin, .cos, .inverseSqrt][code.toNat]?).getD (.unknown code)

def code : MathFunction → UInt8
  | .sin => 0
  | .cos => 1
  | .inverseSqrt => 2
  | .unknown code => code

def label : MathFunction → String
  | .sin => "sin"
  | .cos => "cos"
  | .inverseSqrt => "inversesqrt"
  | .unknown _ => "unknown"

end MathFunction

/-- An arithmetic operator. -/
inductive BinaryOperator where
  | add
  | subtract
  | multiply
  | divide
  | unknown (code : UInt8)
deriving DecidableEq

namespace BinaryOperator

def ofCode (code : UInt8) : BinaryOperator :=
  ([.add, .subtract, .multiply, .divide][code.toNat]?).getD (.unknown code)

def code : BinaryOperator → UInt8
  | .add => 0
  | .subtract => 1
  | .multiply => 2
  | .divide => 3
  | .unknown code => code

def label : BinaryOperator → String
  | .add => "+"
  | .subtract => "-"
  | .multiply => "*"
  | .divide => "/"
  | .unknown _ => "?"

end BinaryOperator

/-- One step of a method body, acting on the operand stack. -/
inductive Operation where
  /-- Pushes a pointer to a field. -/
  | loadField (field : Int)
  /-- Pushes a pointer to a local. -/
  | loadLocal (index : Int)
  /-- Pops a value and writes it to a field. -/
  | storeField (field : Int)
  /-- Pops a value and writes it to a local. -/
  | storeLocal (index : Int)
  /-- Pops a value, then a pointer, and writes the value there. -/
  | store
  /-- Replaces a pointer by the value it points to. -/
  | deref
  | pushUint (value : UInt32)
  /-- Pushes the float with the given bit pattern. -/
  | pushFloat (bits : UInt32)
  /-- Replaces a composite by one of its components. -/
  | extract (index : UInt32)
  /-- Replaces a composite by a component of a component. -/
  | extract2 (row col : UInt32)
  /-- Replaces a pointer to a composite by a pointer to one of its components. -/
  | access (index : UInt32)
  /-- Pops `count` values and pushes the composite made of them, the first pushed first. -/
  | construct (type : Ty) (count : Int)
  | math (function : MathFunction)
  /-- Replaces a vector of four components by its first three. -/
  | narrowVec4
  /-- Would replace a matrix by its upper left part. -/
  | narrowMat4
  /-- Pops the right operand, then the left one, and pushes the result. -/
  | binary (operator : BinaryOperator)
  | dup
  | pop
  | ret
  /-- No operation was given. -/
  | missing
deriving DecidableEq

/-- A variable of one method. A local without a name is called by its position. -/
structure Local where
  name : String
  type : Ty
deriving DecidableEq

/-- A function without parameters. -/
structure Method where
  name : String
  result : Ty
  locals : List Local
  body : List Operation
deriving DecidableEq

/-- One shader stage. -/
structure Program where
  name : String
  stage : Stage
  options : StageOptions
  fields : List Field
  methods : List Method
deriving DecidableEq

/-- The name of the method that the stage starts in. -/
def entryPointName : String := "main"

/-- The element of a list at a signed position. -/
def elementAt? {α : Type} (xs : List α) (i : Int) : Option α :=
  match i with
  | .ofNat n => xs[n]?
  | .negSucc _ => none

end ShaderStage
