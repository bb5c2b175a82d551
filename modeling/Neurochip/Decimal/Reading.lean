import Neurochip.Decimal.Shortest

namespace Neurochip

/-!
# Reading a decimal

A decimal is read in stages, and each stage rounds to the nearest binary64
number: first its digits, then a power of ten, then the product or quotient of
the two.  Powers of ten that are no binary64 numbers are divided out in several
stages.  The result can differ from the nearest number by a few places, because
more than one stage may round.
-/

namespace Binary64

/-- The greatest power of ten that is a binary64 number. -/
def maxTenPower : Nat := 308

/-- The number nearest to a power of ten. -/
def tenPower (exponent : Nat) : Binary64 :=
  ofRatio (Nat.pow 10 exponent) 1

/-- A number divided by a power of ten, in stages. -/
def divTenPower (number : Binary64) (exponent : Nat) : Binary64 :=
  if exponent ≤ maxTenPower then
    number.div (tenPower exponent)
  else if number.significand = 0 then
    number
  else
    (number.div (tenPower maxTenPower)).divTenPower (exponent - maxTenPower)
termination_by exponent
decreasing_by
  simp only [maxTenPower] at *
  omega

/-- A number multiplied by a power of ten, if the product is not too large. -/
def mulTenPower? (number : Binary64) (exponent : Nat) : Option Binary64 :=
  if exponent ≤ maxTenPower then
    let product := number.mul (tenPower exponent)
    if product.exponent ≤ maxExponent then some product else none
  else if number.significand = 0 then
    some number
  else
    none

end Binary64

namespace Decimal

/-- The binary64 number that a decimal is read as, if the decimal is not too large. -/
def read? (number : Decimal) : Option Binary64 :=
  let digits := Binary64.ofRatio number.digits 1
  if number.exponent < 0 then
    some (digits.divTenPower (-number.exponent).toNat)
  else
    digits.mulTenPower? number.exponent.toNat

end Decimal

end Neurochip
