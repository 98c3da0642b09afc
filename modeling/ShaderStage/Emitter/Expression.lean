import ShaderStage.Emitter.Types

/-! # Expressions

Each expression checks the types of its operands, emits one instruction (and what it depends on),
and records the type and the debug name of its result. Names follow the operands: a result whose
operand has no name has none. -/

namespace ShaderStage

namespace Ty

/-- The type of a component of a composite. -/
def component (t : Ty) (index : UInt32) : Except CompileError Ty :=
  match t.underlying with
  | .vector count =>
    if index < count.toUInt32 then .ok .float32 else .error (.componentOutOfRange index count)
  | .matrix4 => if index < 4 then .ok .vec4 else .error (.columnOutOfRange index)
  | .array elem length =>
    if index < length then .ok elem else .error (.elementOutOfRange index length)
  | .struct name members =>
    match members.type? index.toNat with
    | some type => .ok type
    | none => .error (.memberOutOfRange index name members.length)
  | t => .error (.notComposite t)

/-- The number of components that parts of the given types make in a vector of type `vector`, after
`count` of them. -/
def vectorComponents (vector : Ty) (count : Nat) : List Ty → Except CompileError Nat
  | [] => .ok count
  | part :: rest =>
    match part.underlying with
    | .vector n => vectorComponents vector (count + n.toNat) rest
    | _ =>
      if part.same .float32 then vectorComponents vector (count + 1) rest
      else .error (.vectorPart part vector)

/-- Parts of the given types, from position `index` on, are the members of `t`. -/
def checkMembers (t : Ty) (index : Nat) : List Ty → Except CompileError Unit
  | [] => .ok ()
  | part :: rest =>
    match t.component (.ofNat index) with
    | .error e => .error e
    | .ok wanted =>
      if part.same wanted then checkMembers t (index + 1) rest
      else .error (.partMismatch index t part wanted)

/-- Parts of the given types make a value of type `t`. A vector takes floats and vectors that
together have its components; any other composite takes one part for each member. -/
def checkParts (t : Ty) (parts : List Ty) : Except CompileError Unit :=
  match t.underlying with
  | .vector count =>
    match vectorComponents t 0 parts with
    | .error e => .error e
    | .ok found => if found = count.toNat then .ok () else .error (.vectorComponents t found)
  | .matrix4 => members 4
  | .array _ length => members length.toNat
  | .struct _ fields => members fields.length
  | u => .error (.notComposite u)
where
  /-- Checks for exactly `wanted` parts of the right types. -/
  members (wanted : Nat) : Except CompileError Unit :=
    if parts.length = wanted then checkMembers t 0 parts
    else .error (.partCount t parts.length wanted)

/-- The type is the 32-bit float. -/
def isFloat32 (t : Ty) : Bool :=
  t = .float32

/-- The product of a matrix, vector or scalar with another: its opcode, its type, and whether the
operands change places because the scalar comes last. -/
def product? (left right : Ty) : Option (Opcode × Ty × Bool) :=
  match left, right with
  | .matrix4, .matrix4 => some (.matrixTimesMatrix, .matrix4, false)
  | .matrix4, .vector n => if n = 4 then some (.matrixTimesVector, .vec4, false) else none
  | .vector n, .matrix4 => if n = 4 then some (.vectorTimesMatrix, .vec4, false) else none
  | .matrix4, t => if t.isFloat32 then some (.matrixTimesScalar, .matrix4, false) else none
  | t, .matrix4 => if t.isFloat32 then some (.matrixTimesScalar, .matrix4, true) else none
  | .vector n, t => if t.isFloat32 then some (.vectorTimesScalar, .vector n, false) else none
  | t, .vector n => if t.isFloat32 then some (.vectorTimesScalar, .vector n, true) else none
  | _, _ => none

end Ty

/-- The kind of arithmetic that a type has. -/
inductive Arithmetic where
  | float
  | signed
  | unsigned
deriving DecidableEq

namespace BinaryOperator

set_option maxRecDepth 2000 in
/-- The kind of arithmetic on two operands of one type. -/
def arithmetic (op : BinaryOperator) : Ty → Except CompileError Arithmetic
  | .float _ => .ok .float
  | .vector _ => .ok .float
  | .int t => .ok (if t.signed then .signed else .unsigned)
  | .matrix4 => .error (.matrixOperator op)
  | t => .error (.operandType op t)

/-- The opcode of an operator. -/
def opcode (op : BinaryOperator) (a : Arithmetic) : Except CompileError Opcode :=
  match op, a with
  | .add, .float => .ok .fAdd
  | .add, _ => .ok .iAdd
  | .subtract, .float => .ok .fSub
  | .subtract, _ => .ok .iSub
  | .multiply, .float => .ok .fMul
  | .multiply, _ => .ok .iMul
  | .divide, .float => .ok .fDiv
  | .divide, .signed => .ok .sDiv
  | .divide, .unsigned => .ok .uDiv
  | .unknown code, _ => .error (.binaryOperator code)

end BinaryOperator

/-- The number of a function in the mathematical instruction set. -/
def MathFunction.number : MathFunction → Except CompileError Word
  | .sin => .ok 13
  | .cos => .ok 14
  | .inverseSqrt => .ok 32
  | .unknown code => .error (.mathFunction code)

/-- The name of the mathematical instruction set. -/
def mathSetName : String := "GLSL.std.450"

/-- A name with a suffix; no name stays none. -/
def suffixed (base suffix : String) : String :=
  if base = "" then "" else base ++ suffix

/-- The suffixes of the first components of a value. -/
def swizzles : List String := [".x", ".y", ".z", ".w"]

/-- The name of a component of a value. -/
def extractName (base : String) (index : UInt32) : String :=
  match swizzles[index.toNat]? with
  | some suffix => suffixed base suffix
  | none => base

/-- The name of a pointer to a component. -/
def accessName (base : String) (index : UInt32) : String :=
  if index < 4 then suffixed base s!"[{index}]" else base

namespace Emit

/-- Refuses the program if a check fails. -/
def check {α : Type} (e : Except CompileError α) : Emit α :=
  match e with
  | .ok a => pure a
  | .error e => refuse e

/-- Records a new value and emits its name if it has one. -/
def named (id : Id) (key : Key) (text : String) : Emit Id := do
  bind id key text
  unless text = "" do name id text
  return id

/-- What is known about a pointer, and the type it points to. -/
def pointer (id : Id) : Emit (Binding × Ty) := do
  let b ← binding id
  match b.key.elem? with
  | some elem => return (b, elem.type)
  | none => refuse (.notPointer id b.key.type)

/-- Reads what a pointer points to. -/
def load (pointerId : Id) : Emit Id := do
  let (b, elem) ← pointer pointerId
  let type ← typeId elem .none
  let id ← loadOp type pointerId
  named id (.value elem) (suffixed b.name "-loaded")

/-- Writes a value to where a pointer points. -/
def store (pointerId value : Id) : Emit Unit := do
  let (_, elem) ← pointer pointerId
  let v ← binding value
  if elem.same v.key.type then storeOp pointerId value
  else refuse (.storeMismatch v.key.type elem)

/-- Takes a component of a composite. -/
def extract (base : Id) (index : UInt32) : Emit Id := do
  let b ← binding base
  let elem ← check (b.key.type.component index)
  let type ← typeId elem .none
  let id ← extractOp type base [index]
  named id (.value elem) (extractName b.name index)

/-- Takes a component of a component of a composite. -/
def extract2 (base : Id) (row col : UInt32) : Emit Id := do
  let b ← binding base
  let inner ← check (b.key.type.component row)
  let elem ← check (inner.component col)
  let type ← typeId elem .none
  let id ← extractOp type base [row, col]
  named id (.value elem) (suffixed b.name s!"[{row}][{col}]")

/-- Points to a component of the composite that a pointer points to, in the same storage class. -/
def access (base : Id) (index : UInt32) : Emit Id := do
  let (b, elem) ← pointer base
  let member ← check (elem.component index)
  let key := Key.pointer member b.key.storage
  let type ← keyId key
  let indexId ← constantUint index
  let id ← accessChainOp type base [indexId]
  named id key (accessName b.name index)

/-- Makes a composite of its parts. -/
def construct (t : Ty) (parts : List Id) : Emit Id := do
  let bindings ← parts.mapM binding
  check (t.checkParts (bindings.map (·.key.type)))
  let type ← typeId t .none
  let id ← constructOp type parts
  named id (.value t) ""

/-- The id of the mathematical instruction set, imported at first use. -/
def mathSet : Emit Id := do
  match (← get).mathSet with
  | some id => return id
  | none =>
    let id ← extInstImport mathSetName
    modify fun s => { s with mathSet := some id }
    return id

/-- The argument of a mathematical function is a float or a vector. -/
def checkMathOperand (function : MathFunction) (t : Ty) : Emit Unit :=
  match t.underlying with
  | .float _ => pure ()
  | .vector _ => pure ()
  | _ => refuse (.mathOperand function t)

/-- Applies a mathematical function. -/
def math (function : MathFunction) (argument : Id) : Emit Id := do
  let number ← check function.number
  let b ← binding argument
  checkMathOperand function b.key.type
  let type ← keyId b.key
  let set ← mathSet
  let id ← extInstOp type set number [argument]
  named id b.key ""

/-- Keeps the first three components of a vector of four. -/
def narrowVec4 (value : Id) : Emit Id := do
  let b ← binding value
  unless b.key.type.underlying = .vec4 do refuse (.narrowOperand b.key.type)
  let x ← extract value 0
  let y ← extract value 1
  let z ← extract value 2
  let id ← construct .vec3 [x, y, z]
  rename id (suffixed b.name ".xyz")
  return id

/-- Would keep the upper left part of a matrix, which has no type. -/
def narrowMat4 (value : Id) : Emit Id := do
  let _ ← binding value
  refuse .narrowMatrix

/-- Emits an operator on two operands whose types were checked. -/
def arithmetic (opcode : Opcode) (t : Ty) (left right : Id) : Emit Id := do
  let type ← typeId t .none
  let id ← binaryOp opcode type left right
  named id (.value t) ""

/-- Emits an operator on two operands of one type. -/
def uniform (op : BinaryOperator) (leftType rightType : Ty) (left right : Id) : Emit Id := do
  unless leftType.same rightType do refuse (.mismatchedOperands leftType op rightType)
  let kind ← check (op.arithmetic leftType)
  let opcode ← check (op.opcode kind)
  arithmetic opcode leftType left right

/-- Combines two operands: a product of matrices, vectors and scalars, or an operator on two
operands of one type. -/
def binary (op : BinaryOperator) (left right : Id) : Emit Id := do
  let l ← binding left
  let r ← binding right
  let leftType := l.key.type.underlying
  let rightType := r.key.type.underlying
  match if op = .multiply then leftType.product? rightType else none with
  | some (opcode, t, swap) =>
    if swap then arithmetic opcode t right left else arithmetic opcode t left right
  | none => uniform op leftType rightType left right

end Emit

end ShaderStage
