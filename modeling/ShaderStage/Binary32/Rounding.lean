/-! # Rounding to a binary format

A non-negative fraction rounds to the nearest number of a binary floating point format, and a
fraction halfway between two numbers to the one with an even significand. The result is the bit
pattern, which grows with the number it stands for, so a carry out of the significand needs no
case of its own. -/

namespace ShaderStage.Binary32

/-- A binary floating point format: the bits of its stored significand and of its exponent. -/
structure Format where
  fractionBits : Nat
  exponentBits : Nat

/-- The 32-bit format. -/
def single : Format := ⟨23, 8⟩

/-- The 64-bit format. -/
def double : Format := ⟨52, 11⟩

namespace Format

/-- The least numbers above zero are the multiples of `2 ^ - f.leastExponent`. -/
def leastExponent (f : Format) : Nat :=
  Nat.pow 2 (f.exponentBits - 1) - 2 + f.fractionBits

/-- The bit pattern of infinity. -/
def infinity (f : Format) : Nat :=
  (Nat.pow 2 f.exponentBits - 1) * Nat.pow 2 f.fractionBits

end Format

/-- The quotient `num / den` rounded to a whole number, ties to even. -/
def roundDiv (num den : Nat) : Nat :=
  let q := num / den
  let r := num % den
  if 2 * r < den then q
  else if den < 2 * r then q + 1
  else q + q % 2

/-- The power `2 ^ e` as a fraction. -/
def powerOfTwo (e : Int) : Nat × Nat :=
  if 0 ≤ e then (Nat.pow 2 e.toNat, 1) else (1, Nat.pow 2 (-e).toNat)

/-- The exponent of the greatest power of two not above `num / den`. -/
def binaryExponent (num den : Nat) : Int :=
  let guess : Int := (num.log2 : Int) - den.log2
  let p := powerOfTwo guess
  if num * p.2 < den * p.1 then guess - 1 else guess

/-- The bit pattern nearest to `num / den`, or none if it lies beyond the finite numbers. -/
def nearest? (f : Format) (num den : Nat) : Option Nat :=
  if num = 0 then some 0
  else
    let unit := max (binaryExponent num den - f.fractionBits) (-f.leastExponent)
    let p := powerOfTwo unit
    let mantissa := roundDiv (num * p.2) (den * p.1)
    let bits := (unit + f.leastExponent).toNat * Nat.pow 2 f.fractionBits + mantissa
    if bits < f.infinity then some bits else none

end ShaderStage.Binary32
