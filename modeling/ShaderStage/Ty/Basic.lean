/-! # Types

The types that a program may declare. Some of them have no counterpart in a module, and some are
only another name for one that has: an enumeration is its integer, a character an unsigned byte,
and a type left out is void.

Names, here and throughout, are texts: a sequence of bytes that is not UTF-8 is no name. -/

namespace ShaderStage

/-- An integer type. -/
structure IntTy where
  width : UInt8
  signed : Bool
deriving DecidableEq

mutual

/-- A type of a program. -/
inductive Ty where
  /-- No type was given. -/
  | unset
  | bool
  | int (type : IntTy)
  | char
  | float (width : UInt8)
  /-- A vector of 32-bit floats. -/
  | vector (count : UInt8)
  /-- The four by four matrix of 32-bit floats. -/
  | matrix4
  /-- An array; length zero stands for a length not yet known. -/
  | array (elem : Ty) (length : UInt32)
  | pointer (elem : Ty)
  | sampledImage2D
  /-- A structure. Its name and those of its members are UTF-8 texts, and may be empty. -/
  | struct (name : String) (members : Members)
  | void
  | enum (name : String) (underlying : IntTy)
  | string
  | dateTime
  | null

/-- The members of a structure, in order. -/
inductive Members where
  | nil
  | cons (name : String) (type : Ty) (rest : Members)

end

deriving instance DecidableEq for Ty, Members

instance : Inhabited Ty := ⟨.unset⟩

namespace Members

/-- The members as a list of names and types. -/
def toList : Members → List (String × Ty)
  | .nil => []
  | .cons name type rest => (name, type) :: rest.toList

/-- The members of a list. -/
def ofList : List (String × Ty) → Members
  | [] => .nil
  | (name, type) :: rest => .cons name type (ofList rest)

/-- The number of members. -/
def length : Members → Nat
  | .nil => 0
  | .cons _ _ rest => rest.length + 1

/-- The type of a member. -/
def type? : Members → Nat → Option Ty
  | .nil, _ => none
  | .cons _ type _, 0 => some type
  | .cons _ _ rest, i + 1 => rest.type? i

@[simp] theorem ofList_toList (m : Members) : ofList m.toList = m := by
  induction m using toList.induct with
  | case1 => rfl
  | case2 name type rest ih => simp [toList, ofList, ih]

@[simp] theorem toList_ofList (l : List (String × Ty)) : (ofList l).toList = l := by
  induction l with
  | nil => rfl
  | cons head rest ih => simp [ofList, toList, ih]

@[simp] theorem length_toList (m : Members) : m.toList.length = m.length := by
  induction m using toList.induct with
  | case1 => rfl
  | case2 name type rest ih => simp [toList, length, ih]

end Members

namespace Ty

/-- The unsigned 32-bit integer. -/
def uint32 : Ty := .int ⟨32, false⟩

/-- The signed 32-bit integer. -/
def int32 : Ty := .int ⟨32, true⟩

/-- The 32-bit float. -/
def float32 : Ty := .float 32

/-- The vector of four 32-bit floats. -/
def vec4 : Ty := .vector 4

/-- The vector of three 32-bit floats. -/
def vec3 : Ty := .vector 3

/-- The type that a type is another name for. -/
def underlying : Ty → Ty
  | .enum _ underlying => .int underlying
  | .char => .int ⟨8, false⟩
  | .unset => .void
  | t => t

/-- The type is a sampled image or an array of them. -/
def isOpaque : Ty → Bool
  | .sampledImage2D => true
  | .array elem _ => elem.isOpaque
  | _ => false

/-- The type is void, given or left out. -/
def isVoid (t : Ty) : Bool :=
  t.underlying = .void

end Ty

end ShaderStage
