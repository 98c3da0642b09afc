import ShaderStage.Program.Basic
import ShaderStage.Proofs.Semantics.Data

/-! # Running methods

An interpreter of method bodies. Fields and locals are cells of a store; operations act on a stack
of values and pointers into cells. Every slot of the stack carries its type, by which an operator
finds its meaning. A run that finds the wrong operands has no result. -/

namespace ShaderStage

set_option maxRecDepth 2000 in
/-- The type of a part of a composite. -/
def Ty.part? (t : Ty) (i : Word) : Option Ty :=
  match t.underlying with
  | .vector count => if i < count.toUInt32 then some .float32 else none
  | .matrix4 => if i < 4 then some .vec4 else none
  | .array elem length => if i < length then some elem else none
  | .struct _ members => members.type? i.toNat
  | _ => none

/-! ## Stores -/

/-- A variable that a running method can reach, by its position. -/
inductive Cell where
  | field (position : Int)
  | own (position : Int)
deriving DecidableEq

/-- The values of the fields and of the locals of a running method. -/
structure Store (S : Type) where
  fields : List (Data S)
  locals : List (Data S)

namespace Store

variable {S : Type}

def read? (σ : Store S) : Cell → Option (Data S)
  | .field n => elementAt? σ.fields n
  | .own n => elementAt? σ.locals n

def write (σ : Store S) (d : Data S) : Cell → Store S
  | .field n => { σ with fields := σ.fields.set n.toNat d }
  | .own n => { σ with locals := σ.locals.set n.toNat d }

/-- The value at the end of a path into a cell. -/
def load? (σ : Store S) (cell : Cell) (path : List Word) : Option (Data S) := do
  let d ← σ.read? cell
  d.at? path

/-- The store with a value written to the end of a path into a cell. -/
def store? (σ : Store S) (cell : Cell) (path : List Word) (new : Data S) : Option (Store S) := do
  let d ← σ.read? cell
  let d ← d.replace? path new
  return σ.write d cell

end Store

/-! ## Operators -/

namespace ScalarOps

variable {S : Type} (A : ScalarOps S)

/-- The meaning of an operator on floats. -/
def floatOperator? (width : Word) : BinaryOperator → Option (S → S → S)
  | .add => some (A.fAdd width)
  | .subtract => some (A.fSub width)
  | .multiply => some (A.fMul width)
  | .divide => some (A.fDiv width)
  | .unknown _ => none

/-- The meaning of an operator on integers. -/
def intOperator? (type : IntTy) : BinaryOperator → Option (S → S → S)
  | .add => some (A.iAdd type.width.toUInt32)
  | .subtract => some (A.iSub type.width.toUInt32)
  | .multiply => some (A.iMul type.width.toUInt32)
  | .divide =>
    some (if type.signed then A.sDiv type.width.toUInt32 else A.uDiv type.width.toUInt32)
  | .unknown _ => none

/-- The meaning of a mathematical function. -/
def mathFunction? (width : Word) : MathFunction → Option (S → S)
  | .sin => some (A.sin width)
  | .cos => some (A.cos width)
  | .inverseSqrt => some (A.inverseSqrt width)
  | .unknown _ => none

/-- The product of operands of different kinds, by their types: a matrix and a matrix, a vector or a
scalar, or a vector and a scalar. Scaling does not depend on the side of the scalar. -/
def product? : Ty → Ty → Option (Ty × (Data S → Data S → Option (Data S)))
  | .matrix4, .matrix4 => some (.matrix4, A.matrixTimesMatrix? 32)
  | .matrix4, .vector _ => some (.vec4, A.matrixTimesVector? 32)
  | .vector _, .matrix4 => some (.vec4, A.vectorTimesMatrix? 32)
  | .matrix4, .float _ => some (.matrix4, A.scaleMatrix? 32)
  | .float _, .matrix4 => some (.matrix4, fun s m => A.scaleMatrix? 32 m s)
  | .vector n, .float _ => some (.vector n, A.scaleVector? 32)
  | .float _, .vector n => some (.vector n, fun s v => A.scaleVector? 32 v s)
  | _, _ => none

/-- `left op right` on operands of one type. -/
def uniform? (op : BinaryOperator) : Ty → Option (S → S → S)
  | .float width => A.floatOperator? width.toUInt32 op
  | .vector _ => A.floatOperator? 32 op
  | .int type => A.intOperator? type op
  | _ => none

/-- `left op right`, with the meaning that the types of the operands select, and its type. -/
def operate? (op : BinaryOperator) (left right : Ty) (l r : Data S) : Option (Ty × Data S) :=
  match if op = .multiply then A.product? left right else none with
  | some (type, product) => (product l r).map (type, ·)
  | none => do
    let f ← A.uniform? op left
    let d ← l.zip? f r
    return (left, d)

/-- The value of a mathematical function at a float or a vector. -/
def math? (f : MathFunction) (d : Data S) : Ty → Option (Data S)
  | .float width => do
    let f ← A.mathFunction? width.toUInt32 f
    d.map? f
  | .vector _ => do
    let f ← A.mathFunction? 32 f
    d.map? f
  | _ => none

end ScalarOps

/-- The value of a type that is made of parts. -/
def Ty.make? {S : Type} (t : Ty) (parts : List (Data S)) : Option (Data S) :=
  match t.underlying with
  | .vector _ => Data.joined? parts
  | _ => some (.composite parts)

/-! ## Bodies -/

/-- What the operations of a method refer to: the types of the fields and locals, and of the
result. -/
structure Context where
  fields : List Ty
  locals : List Ty
  result : Ty

/-- A slot of the stack: a value, or a pointer to the end of a path into a cell. -/
inductive Slot (S : Type) where
  | value (type : Ty) (data : Data S)
  | pointer (type : Ty) (cell : Cell) (path : List Word)

def Slot.data? {S : Type} : Slot S → Option (Data S)
  | .value _ d => some d
  | .pointer _ _ _ => none

namespace Context

variable {S : Type} (A : ScalarOps S) (Γ : Context)

/-- What an operation other than a return does to the stack and the store. -/
def step? (σ : Store S) : Operation → List (Slot S) → Option (List (Slot S) × Store S)
  | .loadField n, st => do
    let type ← elementAt? Γ.fields n
    return (.pointer type (.field n) [] :: st, σ)
  | .loadLocal n, st => do
    let type ← elementAt? Γ.locals n
    return (.pointer type (.own n) [] :: st, σ)
  | .storeField n, .value _ d :: st => do
    let σ ← σ.store? (.field n) [] d
    return (st, σ)
  | .storeLocal n, .value _ d :: st => do
    let σ ← σ.store? (.own n) [] d
    return (st, σ)
  | .store, .value _ d :: .pointer _ cell path :: st => do
    let σ ← σ.store? cell path d
    return (st, σ)
  | .deref, .pointer type cell path :: st => do
    let d ← σ.load? cell path
    return (.value type d :: st, σ)
  | .pushUint v, st => some (.value .uint32 (.scalar (A.uint v)) :: st, σ)
  | .pushFloat v, st => some (.value .float32 (.scalar (A.float v)) :: st, σ)
  | .extract i, .value type d :: st => do
    let type ← type.part? i
    let d ← d.at? [i]
    return (.value type d :: st, σ)
  | .extract2 row col, .value type d :: st => do
    let type ← type.part? row
    let type ← type.part? col
    let d ← d.at? [row, col]
    return (.value type d :: st, σ)
  | .access i, .pointer type cell path :: st => do
    let type ← type.part? i
    return (.pointer type cell (path ++ [i]) :: st, σ)
  | .construct t count, st =>
    if 0 ≤ count ∧ count ≤ st.length then do
      let parts ← (st.take count.toNat).reverse.mapM Slot.data?
      let d ← t.make? parts
      return (.value t d :: st.drop count.toNat, σ)
    else none
  | .math f, .value type d :: st => do
    let d ← A.math? f d type.underlying
    return (.value type d :: st, σ)
  | .narrowVec4, .value _ d :: st => do
    let x ← d.at? [0]
    let y ← d.at? [1]
    let z ← d.at? [2]
    let d ← Data.joined? [x, y, z]
    return (.value .vec3 d :: st, σ)
  | .binary op, .value right r :: .value left l :: st => do
    let (type, d) ← A.operate? op left.underlying right.underlying l r
    return (.value type d :: st, σ)
  | .dup, x :: st => some (x :: x :: st, σ)
  | .pop, _ :: st => some (st, σ)
  | _, _ => none

/-- Runs the operations of a body to a return, or to the end if the method is void. -/
def run? : List Operation → List (Slot S) → Store S → Option (Store S × Option (Data S))
  | [], _, σ => if Γ.result.isVoid then some (σ, none) else none
  | .ret :: _, st, σ =>
    if Γ.result.isVoid then some (σ, none)
    else match st with
      | .value _ d :: _ => some (σ, some d)
      | _ => none
  | op :: ops, st, σ => do
    let (st, σ) ← Γ.step? A σ op st
    run? ops st σ

end Context

/-- What the operations of a method refer to. -/
def Method.context (m : Method) (fields : List Field) : Context :=
  ⟨fields.map Field.type, m.locals.map Local.type, m.result⟩

/-- Runs a method from a store: the store it leaves and its result. -/
def Method.run? {S : Type} (A : ScalarOps S) (m : Method) (fields : List Field) (σ : Store S) :
    Option (Store S × Option (Data S)) :=
  (m.context fields).run? A m.body [] σ

end ShaderStage
