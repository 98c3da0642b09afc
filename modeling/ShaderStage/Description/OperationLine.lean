import ShaderStage.Binary32.Read
import ShaderStage.Description.TypeExpr
import ShaderStage.Program.Basic

/-! # Operation lines

An operation is written as a mnemonic and its arguments, with blanks between them. Fields can be
referred to by name or by position. -/

namespace ShaderStage.Description

/-- Why a line is no operation. -/
inductive LineError where
  | empty
  | arity (mnemonic : String) (wanted found : Nat)
  | number (cause : Text.NumeralError)
  | type (cause : TypeExprError)
  | unknown (mnemonic : String)
deriving DecidableEq

/-- The text of an error. -/
def LineError.message : LineError → String
  | .empty => "empty operation"
  | .arity mnemonic wanted found =>
    mnemonic ++ s!" takes {wanted} argument(s), got {found}"
  | .number cause => cause.message
  | .type cause => cause.message
  | .unknown mnemonic => "unknown operation " ++ Text.quote mnemonic

/-- What the arguments of operations can refer to. -/
structure LineScope where
  declared : Declared
  /-- The positions of the fields, by name. -/
  fields : List (String × Nat)

/-- The operations without arguments. -/
def plainOperations : List (String × Operation) :=
  [("store", .store), ("deref", .deref),
   ("sin", .math .sin), ("cos", .math .cos), ("inversesqrt", .math .inverseSqrt),
   ("narrow_vec4", .narrowVec4), ("narrow_mat4", .narrowMat4),
   ("add", .binary .add), ("sub", .binary .subtract), ("mul", .binary .multiply),
   ("div", .binary .divide),
   ("dup", .dup), ("pop", .pop), ("return", .ret)]

/-- A position: a signed number. -/
def position (text : List Char) : Except LineError Int :=
  (Text.readInt64 text).mapError .number

/-- An index: an unsigned 32-bit number. -/
def index (text : List Char) : Except LineError UInt32 :=
  (Text.readUInt32 text).mapError .number

/-- The position of a field, by name or by number. -/
def fieldPosition (s : LineScope) (text : List Char) : Except LineError Int :=
  match s.fields.lookup (.ofList text) with
  | some n => .ok n
  | none => position text

/-- The operations with one argument. -/
def unaryOperations (s : LineScope) : List (String × (List Char → Except LineError Operation)) :=
  [("load_field", fun a => (fieldPosition s a).map .loadField),
   ("store_field", fun a => (fieldPosition s a).map .storeField),
   ("load_local", fun a => (position a).map .loadLocal),
   ("store_local", fun a => (position a).map .storeLocal),
   ("push_uint", fun a => (index a).map .pushUint),
   ("push_float", fun a => ((Binary32.read a).mapError .number).map .pushFloat),
   ("extract", fun a => (index a).map .extract),
   ("access", fun a => (index a).map .access)]

/-- The operations with two arguments. -/
def binaryOperations (s : LineScope) :
    List (String × (List Char → List Char → Except LineError Operation)) :=
  [("extract2", fun a b => do return .extract2 (← index a) (← index b)),
   ("construct", fun a b => do
      return .construct (← (parseType s.declared a).mapError .type) (← position b))]

/-- The operation of a mnemonic and its arguments. -/
def parseWords (s : LineScope) (mnemonic : String) (arguments : List (List Char)) :
    Except LineError Operation :=
  let arity (wanted : Nat) : Except LineError Operation :=
    .error (.arity mnemonic wanted arguments.length)
  match plainOperations.lookup mnemonic, (unaryOperations s).lookup mnemonic,
      (binaryOperations s).lookup mnemonic with
  | some op, _, _ => if arguments.isEmpty then .ok op else arity 0
  | none, some f, _ =>
    match arguments with
    | [a] => f a
    | _ => arity 1
  | none, none, some f =>
    match arguments with
    | [a, b] => f a b
    | _ => arity 2
  | none, none, none => .error (.unknown mnemonic)

/-- The operation that a line stands for. -/
def parseOperation (s : LineScope) (line : List Char) : Except LineError Operation :=
  match Text.words line with
  | [] => .error .empty
  | mnemonic :: arguments => parseWords s (.ofList mnemonic) arguments

end ShaderStage.Description
