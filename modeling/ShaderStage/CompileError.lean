import ShaderStage.Instruction.Basic
import ShaderStage.Program.Basic
import ShaderStage.Text.Quoted
import ShaderStage.Ty.Signature

/-! # Compile errors

Why a program cannot be compiled. Each cause has a kind and a text. -/

namespace ShaderStage

/-- The kinds of compile errors. -/
inductive ErrorKind where
  | unsupportedType
  | unsupportedFeature
  | internalError
  | invalidProgram
  | entryPointNotFound
  | invalidState
  | unknown (code : UInt8)
deriving DecidableEq

namespace ErrorKind

def ofCode (code : UInt8) : ErrorKind :=
  ([.unsupportedType, .unsupportedFeature, .internalError, .invalidProgram, .entryPointNotFound,
    .invalidState][code.toNat]?).getD (.unknown code)

def label : ErrorKind → String
  | .unsupportedType => "UnsupportedType"
  | .unsupportedFeature => "UnsupportedFeature"
  | .internalError => "InternalError"
  | .invalidProgram => "InvalidProgram"
  | .entryPointNotFound => "EntryPointNotFound"
  | .invalidState => "InvalidState"
  | .unknown _ => "Unknown"

/-- The program asks for something that has no counterpart in a module. -/
def isUnsupported (k : ErrorKind) : Bool :=
  k = .unsupportedType || k = .unsupportedFeature

end ErrorKind

/-- What is wrong at one operation of a method. -/
inductive OperationFault where
  | underflow
  | fieldOutOfRange (index : Int)
  | localOutOfRange (index : Int)
  | unreachable
  | tooFewParts (count : Int) (depth : Nat)
  | returnMismatch (value result : Ty)
  | missing
deriving DecidableEq

/-- The text of a fault. -/
def OperationFault.message : OperationFault → String
  | .underflow => "operand stack underflow"
  | .fieldOutOfRange index => s!"field index {index} out of range"
  | .localOutOfRange index => s!"local index {index} out of range"
  | .unreachable => "unreachable after return"
  | .tooFewParts count depth => s!"construct of {count} values with {depth} on the stack"
  | .returnMismatch value result =>
    "returning " ++ value.signature ++ " from a method of type " ++ result.signature
  | .missing => "nil operation"

/-- Why a program cannot be compiled. -/
inductive CompileError where
  -- Types.
  | integerWidth (width : UInt8)
  | floatWidth (width : UInt8)
  | vectorCount (count : UInt8)
  | unresolvedLength (elem : Ty)
  | unrepresentable (type : Ty)
  | noNaturalSize (type : Ty)
  | opaqueLocal (method : String) (index : Nat) (type : Ty)
  -- Features.
  | specializationConstant (field : String) (number : UInt32)
  | mathFunction (code : UInt8)
  | narrowMatrix
  | matrixOperator (operator : BinaryOperator)
  | binaryOperator (code : UInt8)
  -- Ids.
  | unbound (id : Id)
  -- Programs.
  | noProgram
  | unknownStage (program : String) (code : UInt8)
  | noVertexCount (program : String)
  | unknownBuiltin (code : UInt8)
  | notPointer (id : Id) (type : Ty)
  | storeMismatch (value pointee : Ty)
  | componentOutOfRange (index : UInt32) (count : UInt8)
  | columnOutOfRange (index : UInt32)
  | elementOutOfRange (index length : UInt32)
  | memberOutOfRange (index : UInt32) (struct : String) (count : Nat)
  | notComposite (type : Ty)
  | mathOperand (function : MathFunction) (type : Ty)
  | vectorPart (part vector : Ty)
  | vectorComponents (vector : Ty) (count : Nat)
  | partCount (type : Ty) (found wanted : Nat)
  | partMismatch (index : Nat) (type found wanted : Ty)
  | narrowOperand (type : Ty)
  | mismatchedOperands (left : Ty) (operator : BinaryOperator) (right : Ty)
  | operandType (operator : BinaryOperator) (type : Ty)
  | atOperation (method : String) (index : Nat) (fault : OperationFault)
  | missingReturn (method : String)
  | noEntryPoint (program : String)
  -- State.
  | alreadyUsed
deriving DecidableEq

namespace CompileError

/-- The kind of an error. -/
def kind : CompileError → ErrorKind
  | .integerWidth .. | .floatWidth .. | .vectorCount .. | .unresolvedLength ..
  | .unrepresentable .. | .noNaturalSize .. | .opaqueLocal .. => .unsupportedType
  | .specializationConstant .. | .mathFunction .. | .narrowMatrix | .matrixOperator ..
  | .binaryOperator .. => .unsupportedFeature
  | .unbound .. => .internalError
  | .noEntryPoint .. => .entryPointNotFound
  | .alreadyUsed => .invalidState
  | _ => .invalidProgram

/-- The text of a cause. -/
def text : CompileError → String
  | .integerWidth width => s!"integer width {width}"
  | .floatWidth width => s!"float width {width}"
  | .vectorCount count => s!"vector of {count} components"
  | .unresolvedLength elem => "array of " ++ elem.signature ++ " has no resolved length"
  | .unrepresentable type => type.signature ++ " cannot be represented in SPIR-V"
  | .noNaturalSize type => type.signature ++ " has no natural size"
  | .opaqueLocal method index type =>
    "method " ++ method ++ s!": local {index} of opaque type " ++ type.signature
  | .specializationConstant field number =>
    "field " ++ Text.quote field ++ s!": specialization constant {number}"
  | .mathFunction code => s!"math function {code}"
  | .narrowMatrix => "narrowing a 4x4 matrix to 3x3"
  | .matrixOperator operator => "matrix " ++ operator.label ++ " matrix"
  | .binaryOperator code => s!"binary operator {code}"
  | .unbound id => s!"id {id} has no recorded type"
  | .noProgram => "program is nil"
  | .unknownStage program code => "program " ++ Text.quote program ++ s!" has unknown stage {code}"
  | .noVertexCount program =>
    "geometry program " ++ Text.quote program ++ " has no output vertex count"
  | .unknownBuiltin code => s!"unknown built-in {code}"
  | .notPointer id type => s!"id {id} of type " ++ type.signature ++ " is not a pointer"
  | .storeMismatch value pointee =>
    "storing " ++ value.signature ++ " through a pointer to " ++ pointee.signature
  | .componentOutOfRange index count => s!"component {index} of a {count}-component vector"
  | .columnOutOfRange index => s!"column {index} of a 4x4 matrix"
  | .elementOutOfRange index length => s!"element {index} of an array of length {length}"
  | .memberOutOfRange index struct count =>
    s!"member {index} of struct " ++ struct ++ s!" with {count} fields"
  | .notComposite type => type.signature ++ " is not a composite"
  | .mathOperand function type => function.label ++ " of " ++ type.signature
  | .vectorPart part vector =>
    part.signature ++ " component in a " ++ vector.signature ++ " construct"
  | .vectorComponents vector count =>
    "constructing " ++ vector.signature ++ s!" from {count} components"
  | .partCount type found wanted =>
    "constructing " ++ type.signature ++ s!" from {found} values, want {wanted}"
  | .partMismatch index type found wanted =>
    s!"member {index} of " ++ type.signature ++ ": got " ++ found.signature ++
      ", want " ++ wanted.signature
  | .narrowOperand type => "narrowing " ++ type.signature ++ " to vec3"
  | .mismatchedOperands left operator right =>
    left.signature ++ " " ++ operator.label ++ " " ++ right.signature ++
      ": mismatched operand types"
  | .operandType operator type =>
    "binary operator " ++ operator.label ++ " on " ++ type.signature
  | .atOperation method index fault =>
    "method " ++ method ++ s!", operation {index}: " ++ fault.message
  | .missingReturn method => "method " ++ method ++ ": missing return value"
  | .noEntryPoint program =>
    "program " ++ Text.quote program ++ " has no " ++ Text.quote entryPointName ++ " method"
  | .alreadyUsed => "compiler instance already used"

end CompileError

/-- A kind and a text together. -/
def ErrorKind.message (kind : ErrorKind) (text : String) : String :=
  "spirv " ++ kind.label ++ ": " ++ text

/-- The text of an error, after its kind. -/
def CompileError.message (e : CompileError) : String :=
  e.kind.message e.text

/-- Why emitting code stops: the program is refused, or the module cannot be written. -/
inductive Failure where
  | refused (error : CompileError)
  | fault (fault : Fault)
deriving DecidableEq

end ShaderStage
