import ShaderStage.Instruction.Enumerant
import ShaderStage.Ty.Signature

/-! # Keys

A key names a type of a module: a type and, for a pointer, the storage class it points into. -/

namespace ShaderStage

/-- A type and the storage class that applies if it is a pointer. -/
structure Key where
  type : Ty
  storage : StorageClass
deriving DecidableEq

namespace Key

/-- The key of a type that is no pointer. -/
def value (t : Ty) : Key := ⟨t, .none⟩

/-- The key of a pointer. -/
def pointer (elem : Ty) (storage : StorageClass) : Key := ⟨.pointer elem, storage⟩

/-- The key with names resolved. Only a pointer keeps its storage class, and a pointer to a sampled
image, or to an array of them, is always to a uniform constant. -/
def normalize (k : Key) : Key :=
  match k.type.underlying with
  | .pointer elem =>
    ⟨.pointer elem.underlying, if elem.isOpaque then .uniformConstant else k.storage⟩
  | t => ⟨t, .none⟩

/-- The key of what a pointer points to. -/
def elem? (k : Key) : Option Key :=
  match k.type with
  | .pointer elem => some (value elem)
  | _ => none

/-- The key names a pointer. -/
def isPointer (k : Key) : Bool :=
  k.elem?.isSome

/-- The text that stands for a key. -/
def signature (k : Key) : String :=
  let k := k.normalize
  if k.storage = .none then k.type.signature
  else k.type.signature ++ "@" ++ toString k.storage.toNat

end Key

end ShaderStage
