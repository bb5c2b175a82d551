namespace Neurochip

/-!
# Binary floating point numbers as exact integers

A finite nonnegative number of the binary64 format is a significand of at most
53 bits times a power of two.  `Binary64.ofRatio` rounds a quotient of natural
numbers to the nearest such number; a tie goes to the even significand.
-/

/-- The number `significand * 2 ^ exponent`. -/
structure Binary64 where
  significand : Nat
  exponent : Int
  deriving Repr, DecidableEq, Inhabited

namespace Binary64

/-- The number of bits of a significand. -/
def precision : Nat := 53

/-- The exponent of the finest grid, that of the numbers next to zero. -/
def minExponent : Int := -1074

/-- The exponent of the largest numbers. -/
def maxExponent : Int := 971

/-- The integer nearest to a quotient; a tie goes to the even one. -/
def roundHalfEven (numerator denominator : Nat) : Nat :=
  let whole := numerator / denominator
  let rest := numerator % denominator
  if 2 * rest < denominator ∨ (2 * rest = denominator ∧ whole % 2 = 0) then
    whole
  else
    whole + 1

/-- Numerator and denominator of a quotient divided by `2 ^ exponent`. -/
def scaled (numerator denominator : Nat) (exponent : Int) : Nat × Nat :=
  if 0 ≤ exponent then
    (numerator, denominator <<< exponent.toNat)
  else
    (numerator <<< (-exponent).toNat, denominator)

/-- The greatest exponent of a power of two that is not above a positive quotient. -/
def log2Ratio (numerator denominator : Nat) : Int :=
  let guess : Int := (numerator.log2 : Int) - denominator.log2
  let (up, down) := scaled numerator denominator guess
  if down ≤ up then guess else guess - 1

/-- The binary64 number nearest to a quotient with a positive denominator. -/
def ofRatio (numerator denominator : Nat) : Binary64 :=
  if numerator = 0 then
    ⟨0, minExponent⟩
  else
    let exponent := max minExponent (log2Ratio numerator denominator - (precision - 1 : Nat))
    let (up, down) := scaled numerator denominator exponent
    let significand := roundHalfEven up down
    if significand = 1 <<< precision then
      ⟨1 <<< (precision - 1), exponent + 1⟩
    else
      ⟨significand, exponent⟩

/-- The binary64 number nearest to `significand * 2 ^ exponent`. -/
def ofScaled (significand : Nat) (exponent : Int) : Binary64 :=
  let (up, down) := scaled significand 1 (-exponent)
  ofRatio up down

/-- The product, rounded to the nearest number. -/
def mul (left right : Binary64) : Binary64 :=
  ofScaled (left.significand * right.significand) (left.exponent + right.exponent)

/-- The quotient by a positive number, rounded to the nearest number. -/
def div (left right : Binary64) : Binary64 :=
  let (up, down) :=
    scaled left.significand right.significand (right.exponent - left.exponent)
  ofRatio up down

/-- Whether one number is less than another. -/
def lt (left right : Binary64) : Bool :=
  let shift := left.exponent - right.exponent
  left.significand <<< shift.toNat < right.significand <<< (-shift).toNat

end Binary64

end Neurochip
