import Neurochip.Rounding

namespace Neurochip

/-!
# Integer decay and scaling

State variables are integers.  They leak by a rounded fraction of themselves,
change on a grid of multiples, and are scaled by powers of two; results that do
not fit their register stay at its nearest end.  Some computations are also
given for words of 64 bits, where they have no answer if a word is too small for
what they compute on the way.
-/

namespace FixedPoint

/-- Decay constants count in units of one part in 4096 per step. -/
def decayScale : Nat := 4096

/-- The factor from the mantissa of a threshold or weight to its value. -/
def mantissaUnit : Int := 64

/-- The range of voltages and currents: signed registers of 24 bits. -/
def stateRange : Bounds :=
  { lower := -8388608, upper := 8388607 }

/--
Multiplies by a power of two and stays within signed words of 64 bits.  The
factor itself is such a word, so the 63rd power counts as negative.  Negative
exponents round toward negative infinity.
-/
def scalePow2 (value exponent : Int) : Int :=
  if 0 ≤ exponent then
    Bounds.int64.clamp (value * wrapSigned 64 (1 <<< exponent.toNat : Nat))
  else
    value >>> (-exponent).toNat

/-- The exponents for which the factor, or its inverse, is a shift within 64 bits. -/
def exponentRange : Bounds :=
  { lower := -63, upper := 63 }

/-- Multiplies by a power of two whose exponent is in range. -/
def scalePow2? (value exponent : Int) : Option Int :=
  if exponentRange.Contains exponent then some (scalePow2 value exponent) else none

end FixedPoint

namespace RoundingMode

/-- The value less a rounded fraction of itself; the denominator zero holds the value. -/
@[inline] def decayByRatio
    (mode : RoundingMode)
    (value numerator : Int)
    (denominator : Nat) :
    Draw Int :=
  if denominator = 0 ∨ numerator = 0 ∨ value = 0 then
    return value
  else do
    let decrement ← mode.quotient (value * numerator) denominator
    return Bounds.int32.clamp (value - decrement)

/--
The value less a rounded fraction of itself, if the product of value and
numerator, their quotient and the difference are all words of 64 bits.
-/
def decayByRatio? (mode : RoundingMode) (value numerator denominator : Int) :
    Draw (Option Int) :=
  if denominator = 0 ∨ numerator = 0 ∨ value = 0 then
    return some value
  else
    match Bounds.int64.within? (value * numerator) with
    | none => return none
    | some product => do
        let decrement? ← mode.quotient? product denominator
        return (decrement?.bind fun decrement =>
          Bounds.int64.within? (value - decrement)).map Bounds.int32.clamp

/-- What is answered for words of 64 bits is the decay. -/
theorem run_decayByRatio_of_some
    {mode : RoundingMode}
    {value numerator result : Int}
    {denominator : Nat}
    {generator next : Generator}
    (answered :
      (mode.decayByRatio? value numerator denominator).run generator = (some result, next)) :
    (mode.decayByRatio value numerator denominator).run generator = (result, next) := by
  unfold decayByRatio? at answered
  unfold decayByRatio
  by_cases held : denominator = 0 ∨ numerator = 0 ∨ value = 0
  · have heldHere : (denominator : Int) = 0 ∨ numerator = 0 ∨ value = 0 := by omega
    rw [if_pos heldHere] at answered
    rw [if_pos held]
    cases answered
    rfl
  · have decaysHere : ¬ ((denominator : Int) = 0 ∨ numerator = 0 ∨ value = 0) := by omega
    rw [if_neg decaysHere] at answered
    rw [if_neg held]
    split at answered
    · cases answered
    · rename_i product fits
      obtain ⟨_, rfl⟩ := Bounds.within?_eq_some_iff.mp fits
      rw [quotient?_of_pos mode _ (by omega)] at answered
      simp only [Draw.run_bind, Draw.run_map, Draw.run_pure, Option.bind_some] at answered ⊢
      injection answered with kept same
      obtain ⟨difference, small, rfl⟩ := Option.map_eq_some_iff.mp kept
      obtain ⟨_, rfl⟩ := Bounds.within?_eq_some_iff.mp small
      rw [same]

/-- The value less `constant / 4096` of itself. -/
def decay (mode : RoundingMode) (value : Int) (constant : Nat) : Draw Int :=
  mode.decayByRatio value constant FixedPoint.decayScale

/-- Rounds a value onto the multiples of a number; the multiples of one are all integers. -/
def roundToMultiple (mode : RoundingMode) (value multiple : Int) : Draw Int :=
  if multiple ≤ 1 then
    return value
  else do
    let rounded ← mode.quotient value multiple.toNat
    return Bounds.int64.clamp (rounded * multiple)

end RoundingMode

end Neurochip
