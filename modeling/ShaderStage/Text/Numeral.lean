import ShaderStage.Text.Quoted

/-! # Numerals

Whole numbers in decimal. A reader goes from left to right and stops at the first mistake: a
character that is no digit, or a digit that takes the number past its limit. -/

namespace ShaderStage.Text

/-- What is wrong with a numeral. -/
inductive NumeralFault where
  | malformed
  | outOfRange
deriving DecidableEq

/-- The kind of number that was wanted. -/
inductive NumeralKind where
  | signed
  | unsigned
  | float
deriving DecidableEq

/-- A text that is not the number it should be. -/
structure NumeralError where
  kind : NumeralKind
  text : String
  fault : NumeralFault
deriving DecidableEq

/-- The name by which messages call a reader of numbers. -/
def NumeralKind.label : NumeralKind → String
  | .signed => "Atoi"
  | .unsigned => "ParseUint"
  | .float => "ParseFloat"

/-- The text of a fault. -/
def NumeralFault.message : NumeralFault → String
  | .malformed => "invalid syntax"
  | .outOfRange => "value out of range"

/-- The text of an error. -/
def NumeralError.message (e : NumeralError) : String :=
  "strconv." ++ e.kind.label ++ ": parsing " ++ quote e.text ++ ": " ++ e.fault.message

/-- The value of a decimal digit. -/
def digit? (c : Char) : Option Nat :=
  if '0' ≤ c && c ≤ '9' then some (c.toNat - '0'.toNat) else none

/-- Reads digits after a number `n` already read; the result may not exceed `limit`. -/
def readDigits (limit n : Nat) : List Char → Except NumeralFault Nat
  | [] => .ok n
  | c :: rest =>
    match digit? c with
    | none => .error .malformed
    | some d =>
      if limit < 10 * n + d then .error .outOfRange else readDigits limit (10 * n + d) rest

/-- A number without a sign, at most `limit`. -/
def readNat (limit : Nat) (cs : List Char) : Except NumeralFault Nat :=
  if cs.isEmpty then .error .malformed else readDigits limit 0 cs

/-- An unsigned 32-bit number. -/
def readUInt32 (cs : List Char) : Except NumeralError UInt32 :=
  match readNat 0xFFFFFFFF cs with
  | .ok n => .ok (.ofNat n)
  | .error fault => .error ⟨.unsigned, .ofList cs, fault⟩

/-- A magnitude, checked against the range of a signed 64-bit number of the given sign. -/
def checkInt64 (negative : Bool) (n : Nat) : Except NumeralFault Int :=
  if negative then
    if n ≤ 0x8000000000000000 then .ok (-n) else .error .outOfRange
  else
    if n < 0x8000000000000000 then .ok n else .error .outOfRange

/-- A signed 64-bit number, with or without a sign. -/
def readInt64Digits : List Char → Except NumeralFault Int
  | '-' :: rest => readNat 0xFFFFFFFFFFFFFFFF rest >>= checkInt64 true
  | '+' :: rest => readNat 0xFFFFFFFFFFFFFFFF rest >>= checkInt64 false
  | cs => readNat 0xFFFFFFFFFFFFFFFF cs >>= checkInt64 false

/-- A signed 64-bit number, with or without a sign. -/
def readInt64 (cs : List Char) : Except NumeralError Int :=
  match readInt64Digits cs with
  | .ok n => .ok n
  | .error fault => .error ⟨.signed, .ofList cs, fault⟩

end ShaderStage.Text
