import ShaderStage.Binary32.Rounding

/-! # Writing floating point numbers

A number is written with the fewest decimal digits that read back as the same number, and of
those with the digits nearest to it. Numbers below `1e-04` or from `1e+06` on take an exponent. -/

namespace ShaderStage.Binary32

/-- A positive finite number `significand * 2 ^ exponent`. -/
structure Finite where
  significand : Nat
  exponent : Int
  /-- The number below is only half as far away as the number above. -/
  border : Bool
deriving DecidableEq

/-- The number with a given bit pattern, which must be finite. -/
def Finite.ofBits (bits : Nat) : Finite :=
  let fraction := bits % 0x800000
  let stored : Nat := bits / 0x800000 % 0x100
  if stored = 0 then ⟨fraction, -149, false⟩
  else ⟨0x800000 + fraction, (stored : Int) - 150, fraction = 0 && 1 < stored⟩

namespace Finite

/-- The number as a fraction. -/
def fraction (x : Finite) : Nat × Nat :=
  let p := powerOfTwo x.exponent
  (x.significand * p.1, p.2)

/-- The decimal exponent of the first digit. -/
def decimalExponent (x : Finite) : Int :=
  let (num, den) := x.fraction
  ((Nat.toDigits 10 (num * Nat.pow 10 60 / den)).length : Int) - 61

/-- The power `10 ^ e` as a fraction. -/
def powerOfTen (e : Int) : Nat × Nat :=
  if 0 ≤ e then (Nat.pow 10 e.toNat, 1) else (1, Nat.pow 10 (-e).toNat)

/-- Reading `n * 10 ^ e` gives the number back: it lies between the midpoints to the neighbours,
which themselves count when the significand is even. -/
def readsBack (x : Finite) (n : Nat) (e : Int) : Bool :=
  let p := powerOfTen e
  let q := powerOfTwo (x.exponent - 2)
  let point := n * p.1 * q.2
  let low := (4 * x.significand - if x.border then 1 else 2) * (q.1 * p.2)
  let high := (4 * x.significand + 2) * (q.1 * p.2)
  if x.significand % 2 = 0 then low ≤ point && point ≤ high else low < point && point < high

/-- The multiple of `10 ^ e` that reads back as the number; of two, the nearer. -/
def digitsAt? (x : Finite) (e : Int) : Option Nat :=
  let (num, den) := x.fraction
  let p := powerOfTen e
  let below := num * p.2 / (den * p.1)
  let nearer := roundDiv (num * p.2) (den * p.1)
  let farther := if nearer = below then below + 1 else below
  if x.readsBack nearer e then some nearer
  else if x.readsBack farther e then some farther
  else none

/-- The shortest digits with at least `count` of them; nine always suffice. -/
def shortestFrom (x : Finite) (top : Int) (count : Nat) : Nat → Nat × Int
  | 0 => ((x.digitsAt? (top - 8)).getD 0, top - 8)
  | more + 1 =>
    match x.digitsAt? (top - (count - 1)) with
    | some n => (n, top - (count - 1))
    | none => shortestFrom x top (count + 1) more

/-- The shortest digits that read back, as a number and the exponent of its last digit. -/
def shortest (x : Finite) : Nat × Int :=
  x.shortestFrom x.decimalExponent 1 8

end Finite

/-- Drops zeros at the end. -/
def dropZeros (digits : List Char) : List Char :=
  (digits.reverse.dropWhile (· == '0')).reverse

/-- Writes digits `d₁d₂…`, the first of which counts `10 ^ top`, as `d₁.d₂…e+XX`. -/
def writeScientific (digits : List Char) (top : Int) : List Char :=
  let exponent := Nat.toDigits 10 top.natAbs
  let padded := List.replicate (2 - exponent.length) '0' ++ exponent
  let tail := digits.drop 1
  digits.take 1 ++ (if tail.isEmpty then [] else '.' :: tail) ++
    'e' :: (if top < 0 then '-' else '+') :: padded

/-- Writes digits `d₁d₂…`, the first of which counts `10 ^ top`, without an exponent. -/
def writePlain (digits : List Char) (top : Int) : List Char :=
  if top < 0 then
    '0' :: '.' :: List.replicate ((-top).toNat - 1) '0' ++ digits
  else
    let whole := digits.take (top.toNat + 1)
    let rest := digits.drop (top.toNat + 1)
    whole ++ List.replicate (top.toNat + 1 - digits.length) '0' ++
      (if rest.isEmpty then [] else '.' :: rest)

/-- Writes a positive finite number. -/
def writeFinite (x : Finite) : List Char :=
  let (n, last) := x.shortest
  let written := Nat.toDigits 10 n
  let top := last + written.length - 1
  let digits := dropZeros written
  if top < -4 || 6 ≤ top then writeScientific digits top else writePlain digits top

/-- The text of a number without its sign. -/
def writeMagnitude (bits : Nat) : List Char :=
  if bits = 0 then ['0'] else writeFinite (.ofBits bits)

/-- The text of the number with a given bit pattern. -/
def write (bits : UInt32) : String :=
  let magnitude := bits.toNat % 0x80000000
  let negative := 0x80000000 ≤ bits.toNat
  if single.infinity < magnitude then "NaN"
  else if magnitude = single.infinity then if negative then "-Inf" else "+Inf"
  else .ofList ((if negative then ['-'] else []) ++ writeMagnitude magnitude)

end ShaderStage.Binary32
