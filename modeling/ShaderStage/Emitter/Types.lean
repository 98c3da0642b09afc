import ShaderStage.Binary32.Shortest
import ShaderStage.Emitter.Basic
import ShaderStage.Ty.Size

/-! # Types and constants

Each type and each constant is emitted the first time it is asked for, after what it depends on,
and found again afterwards: types by signature, constants by bit pattern. -/

namespace ShaderStage

/-- The constants of one type, which are found again by bit pattern. -/
inductive Pool where
  | uint
  | float
deriving DecidableEq

namespace Pool

/-- The type of the constants. -/
def type : Pool → Ty
  | .uint => .uint32
  | .float => .float32

/-- The debug name of a constant. -/
def text : Pool → Word → String
  | .uint, value => s!"uint_{value}"
  | .float, bits => "float_" ++ Binary32.write bits

end Pool

namespace Emitter

/-- The ids of the constants in a pool. -/
def constants (s : Emitter) : Pool → List (Word × Id)
  | .uint => s.uints
  | .float => s.floats

/-- The emitter with one more constant in a pool. -/
def addConstant (s : Emitter) (pool : Pool) (bits : Word) (id : Id) : Emitter :=
  match pool with
  | .uint => { s with uints := (bits, id) :: s.uints }
  | .float => { s with floats := (bits, id) :: s.floats }

end Emitter

namespace Emit

/-- The id of a type already emitted, or else of the definition emitted now. -/
def intern (key : Key) (define : Emit Id) : Emit Id := do
  match (← get).types.lookup key.signature with
  | some id => return id
  | none =>
    let id ← define
    modify fun s =>
      { s with
        types := (key.signature, id) :: s.types
        bindings := (id, ⟨key.normalize, ""⟩) :: s.bindings }
    return id

/-- Defines an integer type, with the capability that its width needs. -/
def defineInt (t : IntTy) : Emit Id := do
  if t.width = 8 then capability .int8
  else if t.width = 16 then capability .int16
  else if t.width = 32 then pure ()
  else if t.width = 64 then capability .int64
  else refuse (.integerWidth t.width)
  typeInt t.width.toUInt32 t.signed

/-- Defines a float type, with the capability that its width needs. -/
def defineFloat (width : UInt8) : Emit Id := do
  if width = 16 then capability .float16
  else if width = 32 ∨ width = 128 then pure ()
  else if width = 64 then capability .float64
  else refuse (.floatWidth width)
  typeFloat width.toUInt32

/-- The id of the 32-bit float. -/
def float32Id : Emit Id :=
  intern (.value .float32) (defineFloat 32)

/-- The id of the unsigned 32-bit integer. -/
def uint32Id : Emit Id :=
  intern (.value .uint32) (defineInt ⟨32, false⟩)

/-- Defines a vector of 32-bit floats. -/
def defineVector (count : UInt8) : Emit Id := do
  if count < 2 ∨ 4 < count then refuse (.vectorCount count)
  let component ← float32Id
  typeVector component count.toUInt32

/-- The id of the vector of four. -/
def vec4Id : Emit Id :=
  intern (.value .vec4) (defineVector 4)

/-- Defines the matrix, stored by columns. -/
def defineMatrix4 : Emit Id := do
  let column ← vec4Id
  let id ← typeMatrix column 4
  decorate id .colMajor []
  return id

/-- Defines the sampled image over its image. -/
def defineSampledImage2D : Emit Id := do
  let sampled ← float32Id
  let image ← typeImage sampled dimension2D 0 0 0 1 0
  typeSampledImage image

/-- The id of the type of the constants in a pool. -/
def poolTypeId : Pool → Emit Id
  | .uint => uint32Id
  | .float => float32Id

/-- The id of a constant, given its bit pattern. -/
def constantOf (pool : Pool) (bits : Word) : Emit Id := do
  match ((← get).constants pool).lookup bits with
  | some id => return id
  | none =>
    let type ← poolTypeId pool
    let id ← constant type [bits]
    let text := pool.text bits
    name id text
    bind id (.value pool.type) text
    modify (·.addConstant pool bits id)
    return id

/-- The id of an unsigned constant. -/
abbrev constantUint (value : UInt32) : Emit Id :=
  constantOf .uint value

/-- The id of a float constant, given its bit pattern. -/
abbrev constantFloat (bits : UInt32) : Emit Id :=
  constantOf .float bits

/-- Decorates and names the members of a structure type from position `index` on, which starts
`offset` bytes into the structure. -/
def layoutMembers (struct : Id) (index : Word) (offset : UInt32) : Members → Emit Unit
  | .nil => pure ()
  | .cons member type rest => do
    memberDecorate struct index .offset [offset]
    unless member = "" do memberName struct index member
    match type.naturalSize with
    | .error part => refuse (.noNaturalSize part)
    | .ok size => layoutMembers struct (index + 1) (offset + size) rest

mutual

/-- The id of a type. A pointer is into the given storage class. -/
def typeId (t : Ty) (storage : StorageClass) : Emit Id :=
  intern ⟨t, storage⟩ <|
    match t with
    | .bool => typeBool
    | .int type => defineInt type
    | .enum _ underlying => defineInt underlying
    | .char => defineInt ⟨8, false⟩
    | .float width => defineFloat width
    | .void => typeVoid
    | .unset => typeVoid
    | .pointer elem => do
      let storage := if elem.isOpaque then .uniformConstant else storage
      let pointee ← typeId elem storage
      typePointer storage pointee
    | .vector count => defineVector count
    | .matrix4 => defineMatrix4
    | .array elem length => do
      if length = 0 then refuse (.unresolvedLength elem)
      let elemId ← typeId elem .none
      let lengthId ← constantUint length
      typeArray elemId lengthId
    | .sampledImage2D => defineSampledImage2D
    | .struct structName members => do
      let memberIds ← typeIds members
      let id ← typeStruct memberIds
      unless structName = "" do name id structName
      layoutMembers id 0 0 members
      return id
    | .string => refuse (.unrepresentable .string)
    | .dateTime => refuse (.unrepresentable .dateTime)
    | .null => refuse (.unrepresentable .null)

/-- The ids of the types of members, in order. -/
def typeIds : Members → Emit (List Id)
  | .nil => return []
  | .cons _ type rest => do
    let id ← typeId type .none
    let ids ← typeIds rest
    return id :: ids

end

/-- The id of the type that a key names. -/
def keyId (key : Key) : Emit Id :=
  typeId key.type key.storage

/-- The id of the type of functions without parameters and with a given result type. -/
def functionType (returnType : Id) : Emit Id := do
  match (← get).functionTypes.lookup returnType with
  | some id => return id
  | none =>
    let id ← typeFunction returnType []
    modify fun s => { s with functionTypes := (returnType, id) :: s.functionTypes }
    return id

/-- Decorates a structure type as a block, once. -/
def markBlock (struct : Id) : Emit Unit := do
  unless struct ∈ (← get).blocks do
    modify fun s => { s with blocks := struct :: s.blocks }
    decorate struct .block []

end Emit

end ShaderStage
