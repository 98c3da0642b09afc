import ShaderStage.Text.Blank
import ShaderStage.Text.Numeral
import ShaderStage.Ty.Basic

/-! # Type expressions

A type is written as a name followed by any number of array lengths in brackets, the innermost
first. The name is one of the built-in spellings or a declared one; empty brackets leave the length
open. -/

namespace ShaderStage.Description

/-- Why a text is no type. -/
inductive TypeExprError where
  | malformedArray (text : String)
  | badLength (text : String) (cause : Text.NumeralError)
  | unknownName (text : String)
deriving DecidableEq

/-- The text of an error. -/
def TypeExprError.message : TypeExprError → String
  | .malformedArray text => "malformed array type " ++ Text.quote text
  | .badLength text cause => "array length " ++ Text.quote text ++ ": " ++ cause.message
  | .unknownName text => "unknown type " ++ Text.quote text

/-- The declared types, by name. -/
abbrev Declared := List (String × Ty)

/-- The spellings of the built-in types. -/
def spellings : List (String × Ty) :=
  [("bool", .bool),
   ("byte", .int ⟨8, false⟩), ("uint8", .int ⟨8, false⟩),
   ("sbyte", .int ⟨8, true⟩), ("int8", .int ⟨8, true⟩),
   ("char", .char),
   ("short", .int ⟨16, true⟩), ("int16", .int ⟨16, true⟩),
   ("ushort", .int ⟨16, false⟩), ("uint16", .int ⟨16, false⟩),
   ("int", .int32), ("int32", .int32),
   ("uint", .uint32), ("uint32", .uint32),
   ("long", .int ⟨64, true⟩), ("int64", .int ⟨64, true⟩),
   ("ulong", .int ⟨64, false⟩), ("uint64", .int ⟨64, false⟩),
   ("float", .float32), ("float32", .float32),
   ("double", .float 64), ("float64", .float 64),
   ("decimal", .float 128),
   ("void", .void),
   ("vec2", .vector 2), ("vec3", .vec3), ("vec4", .vec4),
   ("mat4", .matrix4),
   ("sampler2d", .sampledImage2D),
   ("string", .string),
   ("datetime", .dateTime),
   ("null", .null)]

/-- The type that a name stands for; built-in spellings come first. -/
def namedType (declared : Declared) (text : List Char) : Except TypeExprError Ty :=
  match spellings.lookup (.ofList text) <|> declared.lookup (.ofList text) with
  | some t => .ok t
  | none => .error (.unknownName (.ofList text))

/-- The length between brackets; none stands for zero. -/
def arrayLength (text : List Char) : Except TypeExprError UInt32 :=
  let inner := Text.trim text
  if inner.isEmpty then .ok 0
  else (Text.readUInt32 inner).mapError (.badLength (.ofList inner))

/-- Splits a text that ends in a closing bracket at its last opening one: what stands before it,
which may not be empty, and what stands between the two. -/
def splitArray (text : List Char) : Option (List Char × List Char) :=
  let inner := text.dropLast.reverse.takeWhile (· ≠ '[')
  match text.dropLast.reverse.dropWhile (· ≠ '[') with
  | _ :: c :: before => some ((c :: before).reverse, inner.reverse)
  | _ => none

theorem length_splitArray {text before inner : List Char}
    (h : splitArray text = some (before, inner)) : before.length < text.length := by
  unfold splitArray at h
  split at h
  · next c' c rest heq =>
    obtain ⟨rfl, -⟩ := by simpa using h
    have drop : (text.dropLast.reverse.dropWhile (· ≠ '[')).length ≤ text.dropLast.length := by
      simpa using (List.dropWhile_sublist (l := text.dropLast.reverse) (· ≠ '[')).length_le
    rw [heq] at drop
    simp only [List.length_cons, List.length_dropLast] at drop ⊢
    simp only [List.length_append, List.length_reverse, List.length_cons, List.length_nil]
    omega
  · simp at h

/-- The type that a text stands for. -/
def parseType (declared : Declared) (text : List Char) : Except TypeExprError Ty :=
  let trimmed := Text.trim text
  if trimmed.getLast? = some ']' then
    match _h : splitArray trimmed with
    | none => .error (.malformedArray (.ofList trimmed))
    | some (elem, inner) =>
      match parseType declared elem with
      | .error e => .error e
      | .ok t => (arrayLength inner).map (.array t)
  else namedType declared trimmed
termination_by text.length
decreasing_by
  exact Nat.lt_of_lt_of_le (length_splitArray _h) (Text.length_trim_le text)

end ShaderStage.Description
