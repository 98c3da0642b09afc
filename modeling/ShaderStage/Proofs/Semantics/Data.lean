import ShaderStage.Word

/-! # Values

The values that programs and modules compute with. Scalars are left open, and so is every operation
on them: what is said about values holds for any numbers. Products of vectors and matrices are
defined from the products and sums of scalars. -/

namespace ShaderStage

/-- A value: a scalar or a composite of parts. Vectors, matrices by columns, arrays and structures
are composites. -/
inductive Data (S : Type) where
  | scalar (value : S)
  | composite (parts : List (Data S))

namespace Data

variable {S : Type}

/-- The part at the end of a path of indices. -/
def at? : Data S → List Word → Option (Data S)
  | d, [] => some d
  | .scalar _, _ :: _ => none
  | .composite parts, i :: path => do
    let part ← parts[i.toNat]?
    part.at? path

/-- The value with the part at the end of a path replaced. -/
def replace? : Data S → List Word → Data S → Option (Data S)
  | _, [], new => some new
  | .scalar _, _ :: _, _ => none
  | .composite parts, i :: path, new => do
    let part ← parts[i.toNat]?
    let part ← part.replace? path new
    return .composite (parts.set i.toNat part)

def scalar? : Data S → Option S
  | .scalar s => some s
  | .composite _ => none

/-- The vector with the given components. -/
def vector (components : List S) : Data S :=
  .composite (components.map .scalar)

/-- The components of a vector. -/
def components? : Data S → Option (List S)
  | .scalar _ => none
  | .composite parts => parts.mapM scalar?

/-- The matrix with the given columns. -/
def matrix (columns : List (List S)) : Data S :=
  .composite (columns.map vector)

/-- The columns of a matrix. -/
def columns? : Data S → Option (List (List S))
  | .scalar _ => none
  | .composite parts => parts.mapM components?

/-- The components that a part contributes to a vector. -/
def spread? : Data S → Option (List S)
  | .scalar s => some [s]
  | d => d.components?

/-- The vector made of scalars and vectors. -/
def joined? (parts : List (Data S)) : Option (Data S) :=
  (parts.mapM spread?).map fun components => vector components.flatten

/-- Applies a function to a scalar, or to each component of a vector. -/
def map? (f : S → S) : Data S → Option (Data S)
  | .scalar s => some (.scalar (f s))
  | d => d.components?.map fun components => vector (components.map f)

/-- Applies an operator to two scalars, or to two vectors component by component. -/
def zip? (f : S → S → S) : Data S → Data S → Option (Data S)
  | .scalar a, .scalar b => some (.scalar (f a b))
  | a, b => do
    let as ← a.components?
    let bs ← b.components?
    if as.length = bs.length then some (vector (List.zipWith f as bs)) else none

end Data

/-- The constants, operators and functions on scalars, at each width in bits. Integers of one width
are one kind of scalar; only their division tells signed from unsigned. -/
structure ScalarOps (S : Type) where
  uint : Word → S
  float : Word → S
  fAdd : Word → S → S → S
  fSub : Word → S → S → S
  fMul : Word → S → S → S
  fDiv : Word → S → S → S
  iAdd : Word → S → S → S
  iSub : Word → S → S → S
  iMul : Word → S → S → S
  sDiv : Word → S → S → S
  uDiv : Word → S → S → S
  sin : Word → S → S
  cos : Word → S → S
  inverseSqrt : Word → S → S

namespace ScalarOps

variable {S : Type} (A : ScalarOps S) (width : Word)

/-- The vector with every component multiplied by a scalar. -/
def scaleVector? (v s : Data S) : Option (Data S) := do
  let components ← v.components?
  let s ← s.scalar?
  return .vector (components.map (A.fMul width · s))

/-- The matrix with every component multiplied by a scalar. -/
def scaleMatrix? (m s : Data S) : Option (Data S) := do
  let columns ← m.columns?
  let s ← s.scalar?
  return .matrix (columns.map (·.map (A.fMul width · s)))

/-- The sum of the products of two lists of components. -/
def dot? (as bs : List S) : Option S :=
  match List.zipWith (A.fMul width) as bs with
  | [] => none
  | c :: cs => some (cs.foldl (A.fAdd width) c)

/-- The sum of columns, each multiplied by its own scalar. -/
def combine? (columns : List (List S)) (scalars : List S) : Option (List S) :=
  match List.zipWith (fun column s => column.map (A.fMul width · s)) columns scalars with
  | [] => none
  | c :: cs => some (cs.foldl (List.zipWith (A.fAdd width)) c)

/-- The product of a row vector and a matrix. -/
def vectorTimesMatrix? (v m : Data S) : Option (Data S) := do
  let components ← v.components?
  let columns ← m.columns?
  let components ← columns.mapM (A.dot? width components)
  return .vector components

/-- The product of a matrix and a column vector. -/
def matrixTimesVector? (m v : Data S) : Option (Data S) := do
  let columns ← m.columns?
  let components ← v.components?
  let components ← A.combine? width columns components
  return .vector components

def matrixTimesMatrix? (l r : Data S) : Option (Data S) := do
  let left ← l.columns?
  let right ← r.columns?
  let columns ← right.mapM (A.combine? width left)
  return .matrix columns

end ScalarOps

end ShaderStage
