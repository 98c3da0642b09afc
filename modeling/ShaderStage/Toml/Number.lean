import ShaderStage.Binary32.Read
import ShaderStage.Toml.Text
import ShaderStage.Toml.Value

/-! # Numbers of TOML

Integers are decimal, with an optional sign, or hexadecimal, octal or binary. Digits may be set
apart by underscores. -/

namespace ShaderStage.Toml

/-- Every underscore follows a digit, and none is last. -/
def underscoresFit (isDigit : Char → Bool) (before : Bool) : List Char → Bool
  | [] => true
  | c :: rest =>
    (c ≠ '_' || (before && !rest.isEmpty)) && underscoresFit isDigit (isDigit c) rest

/-- The text without underscores. -/
def dropUnderscores (cs : List Char) : List Char :=
  cs.filter (· ≠ '_')

/-- The value of digits in a base up to sixteen. -/
def digitsValue (base : Nat) (cs : List Char) : Nat :=
  cs.foldl (fun n c => base * n + (Binary32.digitIn 16 c).getD 0) 0

/-- A signed integer of 64 bits; there are no others. -/
def checkRange (n : Int) : Option Value :=
  if -0x8000000000000000 ≤ n && n < 0x8000000000000000 then some (.integer n) else none

/-- The bases that a letter after a zero stands for, with their digits. -/
def baseOf? : Char → Option (Nat × (Char → Bool))
  | 'x' => some (16, isHexDigit)
  | 'o' => some (8, fun c => '0' ≤ c && c ≤ '7')
  | 'b' => some (2, fun c => c == '0' || c == '1')
  | _ => none

/-- Reads an integer after its zero and its letter. -/
def basedInteger (letter : Char) (cs : List Char) : Parsed Value :=
  match baseOf? letter with
  | none => none
  | some (base, isDigit) =>
    let digits := cs.takeWhile fun c => isDigit c || c == '_'
    let precedes := if base = 16 then isHexDigit else Char.isDigit
    if digits.isEmpty || !underscoresFit precedes false digits then none
    else (checkRange (digitsValue base (dropUnderscores digits))).map (·, cs.drop digits.length)

/-- The characters of a decimal number without its sign; a sign may follow the mark of an
exponent. -/
def decimalRun (afterMark : Bool) : List Char → List Char
  | [] => []
  | c :: rest =>
    if c.isDigit || c == '_' || c == '.' then c :: decimalRun false rest
    else if c == 'e' || c == 'E' then c :: decimalRun true rest
    else if afterMark && (c == '+' || c == '-') then c :: decimalRun false rest
    else []

/-- Every point has a digit before it, somewhere, and a digit right after it. -/
def pointsFit (digit : Bool) : List Char → Bool
  | [] => true
  | c :: rest =>
    (c ≠ '.' || (digit && rest.head?.any Char.isDigit)) && pointsFit (digit || c.isDigit) rest

/-- Reads a decimal integer without its sign. -/
def decimalInteger (sign : Option Char) (run : List Char) : Option Value :=
  let digits := dropUnderscores run
  let n : Int := digitsValue 10 digits
  if digits.isEmpty then none
  else
    match sign with
    | none => if 3 ≤ digits.length && digits.head? = some '0' then none else checkRange n
    | some '-' => checkRange (-n)
    | some _ => checkRange n

/-- Reads a decimal number after its sign. -/
def decimalNumber (sign : Option Char) (cs : List Char) : Parsed Value :=
  let run := decimalRun false cs
  let rest := cs.drop run.length
  if !underscoresFit Char.isDigit false run || !pointsFit false run then none
  else if run.any fun c => c == '.' || c == 'e' || c == 'E' then
    match Binary32.readMagnitude Binary32.double (dropUnderscores run) with
    | .ok _ => some (.float, rest)
    | .error _ => none
  else (decimalInteger sign run).map (·, rest)

/-- Reads the name of an infinity or of a number that is none. -/
def namedFloat : List Char → Parsed Value
  | 'i' :: 'n' :: 'f' :: rest => some (.float, rest)
  | 'n' :: 'a' :: 'n' :: rest => some (.float, rest)
  | _ => none

/-- Reads a number. -/
def numberValue : List Char → Parsed Value
  | '0' :: c :: rest =>
    if c.isAlpha then basedInteger c rest else decimalNumber none ('0' :: c :: rest)
  | '+' :: rest => namedFloat rest <|> decimalNumber (some '+') rest
  | '-' :: rest => namedFloat rest <|> decimalNumber (some '-') rest
  | cs => namedFloat cs <|> decimalNumber none cs

end ShaderStage.Toml
