import ShaderStage.Ty.Basic

/-! # Signatures

The text that stands for a type wherever types are compared. Types that are names of one another
have one signature. -/

namespace ShaderStage

/-- The signature of an integer type. -/
def IntTy.signature (t : IntTy) : String :=
  (if t.signed then "i" else "u") ++ toString t.width.toNat

mutual

/-- The signature of a type. -/
def Ty.signature : Ty → String
  | .unset => "void"
  | .bool => "bool"
  | .int type => type.signature
  | .char => "u8"
  | .float width => "f" ++ toString width.toNat
  | .vector count => "vec" ++ toString count.toNat
  | .matrix4 => "mat4"
  | .array elem length => "array<" ++ elem.signature ++ "," ++ toString length.toNat ++ ">"
  | .pointer elem => "ptr<" ++ elem.signature ++ ">"
  | .sampledImage2D => "sampled_image2d"
  | .struct name members => "struct " ++ name ++ "\x7b" ++ members.signature ++ "\x7d"
  | .void => "void"
  | .enum _ underlying => underlying.signature
  | .string => "string"
  | .dateTime => "datetime"
  | .null => "null"

/-- The signatures of members, each after its name. -/
def Members.signature : Members → String
  | .nil => ""
  | .cons name type .nil => name ++ ":" ++ type.signature
  | .cons name type (.cons name' type' rest) =>
    name ++ ":" ++ type.signature ++ ";" ++ (Members.cons name' type' rest).signature

end

/-- The two types are one type in a module. -/
def Ty.same (a b : Ty) : Bool :=
  a.signature == b.signature

end ShaderStage
