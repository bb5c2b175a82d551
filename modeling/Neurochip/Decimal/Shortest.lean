import Neurochip.Bounds
import Neurochip.Decimal.Binary64

namespace Neurochip

/-!
# The shortest decimal that reads back

The reals that round to one binary64 number form an interval around it, whose
ends belong to it exactly when the significand is even.  The shortest decimal
is found on the coarsest grid `10 ^ k` that has a point in that interval; only
the two grid points around the number can be in it, and the nearer one wins; if
both are equally near, the even one.  It is written positionally, or with an
exponent where it is very large or small.
-/

/-- The number `digits * 10 ^ exponent`. -/
structure Decimal where
  digits : Nat
  exponent : Int
  deriving Repr, DecidableEq, Inhabited

/-- The reals that round to one number, as multiples of `1 / unit`. -/
structure RoundingInterval where
  lower : Nat
  center : Nat
  upper : Nat
  unit : Nat
  closed : Bool
  deriving Repr, DecidableEq

namespace RoundingInterval

/-- The interval of a positive number.  Below a power of two the neighbour is only half as far away. -/
def ofBinary (number : Binary64) : RoundingInterval :=
  let step := 1 <<< number.exponent.toNat
  let below :=
    if number.significand = 1 <<< (Binary64.precision - 1) ∧
        Binary64.minExponent < number.exponent then
      step
    else
      2 * step
  { lower := 4 * number.significand * step - below
    center := 4 * number.significand * step
    upper := 4 * number.significand * step + 2 * step
    unit := 4 <<< (-number.exponent).toNat
    closed := number.significand % 2 = 0 }

/-- Whether `numerator / denominator` lies in the interval. -/
def contains (interval : RoundingInterval) (numerator denominator : Nat) : Bool :=
  let scaled := numerator * interval.unit
  if interval.closed then
    interval.lower * denominator ≤ scaled ∧ scaled ≤ interval.upper * denominator
  else
    interval.lower * denominator < scaled ∧ scaled < interval.upper * denominator

/-- The point of the grid `10 ^ exponent` in the interval that is nearest to its center, or even. -/
def gridPoint? (interval : RoundingInterval) (exponent : Int) : Option Nat :=
  let up := Nat.pow 10 exponent.toNat
  let down := Nat.pow 10 (-exponent).toNat
  let gap := up * interval.unit
  let target := interval.center * down
  let floor := target / gap
  let holdsFloor := interval.contains (floor * up) down
  let holdsCeil := interval.contains ((floor + 1) * up) down
  match holdsFloor, holdsCeil with
  | true, true =>
      let excess := 2 * (target - floor * gap)
      if excess < gap ∨ (excess = gap ∧ floor % 2 = 0) then some floor else some (floor + 1)
  | true, false => some floor
  | false, true => some (floor + 1)
  | false, false => none

/-- The first grid with a point in the interval, from a coarse one to finer ones. -/
def firstGridPoint (interval : RoundingInterval) (exponent : Int) : Nat → Decimal
  | 0 => ⟨0, 0⟩
  | grids + 1 =>
      match interval.gridPoint? exponent with
      | some digits => ⟨digits, exponent⟩
      | none => interval.firstGridPoint (exponent - 1) grids

end RoundingInterval

namespace Binary64

/-- The number of grids below `10 ^ 0` that the smallest number needs. -/
def finestGrid : Nat := 345

/-- The decimal with the fewest digits that rounds to the number. -/
def shortest (number : Binary64) : Decimal :=
  if number.significand = 0 then
    ⟨0, 0⟩
  else
    let interval := RoundingInterval.ofBinary number
    let width := (Nat.toDigits 10 (interval.center / interval.unit)).length
    interval.firstGridPoint width (width + finestGrid)

end Binary64

namespace Decimal

/-- Positional notation without a fraction where the number is an integer. -/
def text (number : Decimal) : String :=
  let digits := Nat.toDigits 10 number.digits
  if 0 ≤ number.exponent then
    String.ofList (digits ++ List.replicate number.exponent.toNat '0')
  else
    let places := (-number.exponent).toNat
    let padded := List.replicate (places + 1 - digits.length) '0' ++ digits
    let whole := padded.length - places
    String.ofList (padded.take whole ++ '.' :: padded.drop whole)

/-- Positional notation that always has a fraction. -/
def textWithFraction (number : Decimal) : String :=
  if 0 ≤ number.exponent then number.text ++ ".0" else number.text

/-- The power of ten of the first digit. -/
def leadingExponent (number : Decimal) : Int :=
  (Nat.toDigits 10 number.digits).length + number.exponent - 1

/-- Scientific notation: one digit before the point, and an exponent that always has a sign. -/
def scientificText (number : Decimal) : String :=
  let fraction :=
    match Nat.toDigits 10 number.digits with
    | [] => []
    | [leading] => [leading]
    | leading :: rest => leading :: '.' :: rest
  let sign := if number.leadingExponent < 0 then '-' else '+'
  String.ofList
    (fraction ++ 'e' :: sign :: Nat.toDigits 10 number.leadingExponent.natAbs)

/-- The powers of ten of the numbers that are written positionally. -/
def positionalRange : Bounds :=
  { lower := -5, upper := 15 }

/-- Positional notation for numbers of common size, and scientific notation for the others. -/
def textBySize (number : Decimal) : String :=
  if positionalRange.Contains number.leadingExponent then
    number.textWithFraction
  else
    number.scientificText

end Decimal

end Neurochip
