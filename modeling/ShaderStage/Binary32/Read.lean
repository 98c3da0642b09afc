import ShaderStage.Binary32.Rounding
import ShaderStage.Text.Numeral

/-! # Reading floating point numbers

A number is written in decimal, with an optional point and an optional power of ten after `e`, or
in hexadecimal after `0x`, with an optional point and a power of two after `p` that must be there.
An underscore may stand between two digits, or between `0x` and a digit. Infinity and the
not-a-number have names. The text is taken exactly and rounded once. -/

namespace ShaderStage.Binary32

open Text (NumeralFault NumeralError)

/-- The value of a digit in base ten or sixteen. -/
def digitIn (base : Nat) (c : Char) : Option Nat :=
  if '0' ≤ c && c ≤ '9' then some (c.toNat - '0'.toNat)
  else if base = 16 && 'a' ≤ c.toLower && c.toLower ≤ 'f' then
    some (c.toLower.toNat - 'a'.toNat + 10)
  else none

/-- The digits before an exponent: their value without the point, how many stand after the point,
and what was seen. -/
structure Significand where
  value : Nat := 0
  places : Nat := 0
  point : Bool := false
  digits : Bool := false

/-- Reads digits, underscores and at most one point; returns what is left. -/
def readSignificand (base : Nat) (s : Significand) : List Char → Significand × List Char
  | [] => (s, [])
  | c :: rest =>
    if c = '_' then readSignificand base s rest
    else if c = '.' then
      if s.point then (s, c :: rest) else readSignificand base { s with point := true } rest
    else
      match digitIn base c with
      | none => (s, c :: rest)
      | some d =>
        readSignificand base
          { s with
            value := base * s.value + d
            places := if s.point then s.places + 1 else s.places
            digits := true }
          rest

/-- Reads the digits of an exponent. From ten thousand on further digits change nothing: the number
is beyond every format anyway. -/
def readExponent (e : Nat) : List Char → Option Nat
  | [] => some e
  | c :: rest =>
    if c = '_' then readExponent e rest
    else
      match digitIn 10 c with
      | none => none
      | some d => readExponent (if e < 10000 then 10 * e + d else e) rest

/-- Reads an exponent, with or without a sign, to the end of the text. -/
def readSignedExponent (cs : List Char) : Option Int :=
  let (negative, cs) :=
    match cs with
    | '+' :: rest => (false, rest)
    | '-' :: rest => (true, rest)
    | _ => (false, cs)
  match cs with
  | [] => none
  | c :: _ =>
    if (digitIn 10 c).isNone then none
    else (readExponent 0 cs).map fun e => if negative then -e else e

/-- What stands before a place where an underscore may or may not be. -/
inductive Before where
  | digit
  | underscore
  | other
deriving DecidableEq

/-- Every underscore in the rest of a number follows a digit and precedes one. -/
def underscoresFit (base : Nat) (before : Before) : List Char → Bool
  | [] => before ≠ .underscore
  | c :: rest =>
    if (digitIn base c).isSome then underscoresFit base .digit rest
    else if c = '_' then before = .digit && underscoresFit base .underscore rest
    else before ≠ .underscore && underscoresFit base .other rest

/-- A number as written: `value * base ^ exponent`, the base being ten or two. -/
structure Written where
  value : Nat
  base : Nat
  exponent : Int

/-- Reads a number without its sign. -/
def readUnsigned (cs : List Char) : Option Written :=
  match cs with
  | '0' :: x :: c :: rest =>
    if x.toLower = 'x' then hexadecimal (c :: rest) else decimal cs
  | _ => decimal cs
where
  /-- Reads a hexadecimal number after its `0x`. -/
  hexadecimal (cs : List Char) : Option Written :=
    match readSignificand 16 {} cs with
    | (s, p :: rest) =>
      if s.digits && p.toLower = 'p' && underscoresFit 16 .digit cs then
        (readSignedExponent rest).map fun e => ⟨s.value, 2, e - 4 * s.places⟩
      else none
    | (_, []) => none
  /-- Reads a decimal number. -/
  decimal (cs : List Char) : Option Written :=
    match readSignificand 10 {} cs with
    | (s, []) =>
      if s.digits && underscoresFit 10 .other cs then some ⟨s.value, 10, -s.places⟩ else none
    | (s, e :: rest) =>
      if s.digits && e.toLower = 'e' && underscoresFit 10 .other cs then
        (readSignedExponent rest).map fun e => ⟨s.value, 10, e - s.places⟩
      else none

/-- The bit pattern of a written number in a format. -/
def Written.nearest? (w : Written) (f : Format) : Option Nat :=
  if w.value = 0 then some 0
  else if 0 ≤ w.exponent then Binary32.nearest? f (w.value * Nat.pow w.base w.exponent.toNat) 1
  else Binary32.nearest? f w.value (Nat.pow w.base (-w.exponent).toNat)

/-- The names of infinity. -/
def isInfinityName (cs : List Char) : Bool :=
  let lower := cs.map Char.toLower
  lower = "inf".toList || lower = "infinity".toList

/-- The bit pattern read for `nan`. -/
def notANumber : Nat := 0x7FC00000

/-- The bit pattern of a number without its sign. -/
def readMagnitude (f : Format) (cs : List Char) : Except NumeralFault Nat :=
  if isInfinityName cs then .ok f.infinity
  else
    match readUnsigned cs with
    | none => .error .malformed
    | some w =>
      match w.nearest? f with
      | none => .error .outOfRange
      | some bits => .ok bits

/-- The bit pattern of a 32-bit number. -/
def readBits (cs : List Char) : Except NumeralFault Nat :=
  match cs with
  | '+' :: rest => readMagnitude single rest
  | '-' :: rest => (readMagnitude single rest).map (0x80000000 + ·)
  | _ =>
    if cs.map Char.toLower = "nan".toList then .ok notANumber else readMagnitude single cs

/-- A 32-bit floating point number, as its bit pattern. -/
def read (cs : List Char) : Except NumeralError UInt32 :=
  match readBits cs with
  | .ok bits => .ok (.ofNat bits)
  | .error fault => .error ⟨.float, .ofList cs, fault⟩

end ShaderStage.Binary32
