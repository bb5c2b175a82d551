import Neurochip.Bounds
import Neurochip.Random.Draw

namespace Neurochip

/-!
# Rounding an integer quotient

Every leak and every weight change is an exact quotient that has to become an
integer again.  All three modes answer one of the two integers around the
quotient; they differ in which one.  Only stochastic rounding draws, and only
where the quotient is not an integer.
-/

/-- How the fractional part of a quotient is resolved. -/
inductive RoundingMode where
  | stochastic
  | awayFromZero
  | towardZero
  deriving Repr, DecidableEq, Inhabited

namespace RoundingMode

/-- The names of the modes in parameter files and messages. -/
def name : RoundingMode → String
  | stochastic => "Stochastic"
  | awayFromZero => "AwayFromZero"
  | towardZero => "TowardZero"

/-- All modes, in the order in which they are listed to a reader. -/
def all : List RoundingMode :=
  [stochastic, awayFromZero, towardZero]

/-- The quotient rounded up exactly when the draw falls below the remainder. -/
def quotientAt (numerator : Int) (denominator draw : Nat) : Int :=
  if (draw : Int) < numerator % denominator then
    numerator / denominator + 1
  else
    numerator / denominator

/-- The integer next to the quotient that is farther from zero. -/
def quotientAway (numerator : Int) (denominator : Nat) : Int :=
  if numerator < 0 then
    numerator / denominator
  else
    -(-numerator / denominator)

/-- The integer next to the quotient that is nearer to zero. -/
def quotientToward (numerator : Int) (denominator : Nat) : Int :=
  numerator.tdiv denominator

/-- Rounds a quotient with a positive denominator. -/
def quotient
    (mode : RoundingMode)
    (numerator : Int)
    (denominator : Nat) :
    Draw Int :=
  match mode with
  | stochastic =>
      if numerator % denominator = 0 then
        return numerator / denominator
      else do
        let draw ← Draw.below denominator
        return quotientAt numerator denominator draw
  | awayFromZero =>
      return quotientAway numerator denominator
  | towardZero =>
      return quotientToward numerator denominator

/--
The quotient by a negative denominator, which takes no draw.  Away from zero it
has the sign of the numerator; otherwise there is an answer only if it is a word
of 64 bits, and under stochastic rounding only if it is an integer.
-/
def negativeQuotient? (mode : RoundingMode) (numerator denominator : Int) : Option Int :=
  match mode with
  | stochastic =>
      if numerator % denominator = 0 then
        Bounds.int64.within? (numerator / denominator)
      else
        none
  | awayFromZero =>
      some (quotientAway numerator denominator.natAbs)
  | towardZero =>
      Bounds.int64.within? (numerator.tdiv denominator)

/-- Rounds a quotient of two words of 64 bits; there is none for the denominator zero. -/
def quotient? (mode : RoundingMode) (numerator denominator : Int) : Draw (Option Int) :=
  if denominator = 0 then
    return none
  else if denominator < 0 then
    return mode.negativeQuotient? numerator denominator
  else do
    let rounded ← mode.quotient numerator denominator.toNat
    return some rounded

/-- A positive denominator always has a quotient. -/
theorem quotient?_of_pos
    (mode : RoundingMode)
    (numerator : Int)
    {denominator : Nat}
    (positive : 0 < denominator) :
    mode.quotient? numerator denominator =
      (some <$> mode.quotient numerator denominator) := by
  have nonzero : (denominator : Int) ≠ 0 := by omega
  have nonnegative : ¬ (denominator : Int) < 0 := by omega
  rw [quotient?, if_neg nonzero, if_neg nonnegative]
  rfl

end RoundingMode

end Neurochip
