import Neurochip.Proofs.Failure.Guarded
import Neurochip.Proofs.Rounding.Neighbours

namespace Neurochip.RoundingMode

/-!
# Rounding and decay do not fail

All quotients are taken of words of 64 bits by a positive denominator.  What is
rounded up, and what a decay computes on the way, is then such a word again.
-/

/-- Unsigned words of 64 bits. -/
def unsigned64 : Bounds :=
  { lower := 0, upper := 18446744073709551615 }

/-- The magnitude of a quotient, rounded up. -/
def magnitudeUp (numerator denominator : Int) : Int :=
  -(-(numerator.natAbs : Int) / (denominator.natAbs : Int))

/-- The rounded quotient of two words of 64 bits; away from zero it stays at the end of the words
if it would not fit. -/
def quotientGuarded (mode : RoundingMode) (numerator denominator : Int) : Guarded Int :=
  match mode with
  | stochastic => do
      let quotient ← Guard.divided .int64 (· / ·) numerator denominator
      let remainder ← Guard.remainder numerator denominator
      if remainder = 0 then
        return quotient
      else do
        let draw ← Guarded.below denominator
        if (draw : Int) < remainder then
          Guard.word .int64 (quotient + 1)
        else
          return quotient
  | awayFromZero => do
      let magnitude ← Guard.divided unsigned64 magnitudeUp numerator denominator
      if numerator < 0 then
        return Bounds.int64.clamp (-magnitude)
      else
        return Bounds.int64.clamp magnitude
  | towardZero =>
      Guard.divided .int64 Int.tdiv numerator denominator

/-- The value less a rounded fraction of itself, computed in words of 64 bits. -/
def decayByRatioGuarded
    (mode : RoundingMode)
    (value numerator denominator : Int) :
    Guarded Int :=
  if denominator = 0 ∨ numerator = 0 ∨ value = 0 then
    return value
  else do
    let product ← Guard.word .int64 (value * numerator)
    let decrement ← mode.quotientGuarded product denominator
    let difference ← Guard.word .int64 (value - decrement)
    return Bounds.int32.clamp difference

/-- The value less a fraction of itself in the unit of decay constants. -/
def decayGuarded (mode : RoundingMode) (value : Int) (constant : Nat) : Guarded Int :=
  mode.decayByRatioGuarded value constant FixedPoint.decayScale

/-- A value rounded onto the multiples of a number; the product stays at the end of the words if it
would not fit. -/
def roundToMultipleGuarded (mode : RoundingMode) (value multiple : Int) : Guarded Int :=
  if multiple ≤ 1 then
    return value
  else do
    let rounded ← mode.quotientGuarded value multiple
    return Bounds.int64.clamp (rounded * multiple)

variable {numerator : Int} {denominator : Nat}

/-- The quotients next to a quotient of a word are words. -/
theorem contains_quotients
    (fits : Bounds.int64.Contains numerator)
    (positive : 0 < denominator) :
    Bounds.int64.Contains (numerator / denominator) ∧
      Bounds.int64.Contains (-(-numerator / (denominator : Int))) := by
  have positiveInt : 0 < (denominator : Int) := by omega
  simp only [Bounds.contains_int64_iff] at *
  have floorAtLeast : -9223372036854775808 ≤ numerator / (denominator : Int) := by
    rw [Int.le_ediv_iff_mul_le positiveInt]
    omega
  have floorAtMost : numerator / (denominator : Int) < 9223372036854775808 := by
    rw [Int.ediv_lt_iff_lt_mul positiveInt]
    omega
  have ceilAtMost : -9223372036854775807 ≤ -numerator / (denominator : Int) := by
    rw [Int.le_ediv_iff_mul_le positiveInt]
    omega
  have ceilAtLeast : -numerator / (denominator : Int) < 9223372036854775809 := by
    rw [Int.ediv_lt_iff_lt_mul positiveInt]
    omega
  omega

/-- Any rounded quotient of a word is a word. -/
theorem contains_run_quotient
    (mode : RoundingMode)
    (fits : Bounds.int64.Contains numerator)
    (positive : 0 < denominator)
    (generator : Generator) :
    Bounds.int64.Contains ((mode.quotient numerator denominator).run generator).1 := by
  obtain ⟨above, below⟩ := mode.run_quotient_between numerator positive generator
  obtain ⟨⟨lower, _⟩, ⟨_, upper⟩⟩ := contains_quotients fits positive
  exact ⟨by omega, by omega⟩

/-- Stochastic rounding of a word by a positive denominator does not fail. -/
theorem agrees_stochastic
    (fits : Bounds.int64.Contains numerator)
    (positive : 0 < denominator) :
    Guarded.Agrees (stochastic.quotientGuarded numerator denominator)
      (stochastic.quotient numerator denominator) := by
  have nonzero : (denominator : Int) ≠ 0 := by omega
  have positiveInt : 0 < (denominator : Int) := by omega
  obtain ⟨floorFits, ceilFits⟩ := contains_quotients fits positive
  unfold quotientGuarded quotient
  refine Guarded.agrees_lift_bind (Guard.divided_of_contains nonzero floorFits) ?_
  refine Guarded.agrees_lift_bind (if_neg nonzero) ?_
  by_cases divisible : numerator % (denominator : Int) = 0
  · rw [if_pos divisible, if_pos divisible]
    exact Guarded.agrees_pure _
  · have above := neg_neg_ediv numerator positiveInt
    rw [if_neg divisible] at above
    rw [if_neg divisible, if_neg divisible]
    refine (Guarded.agrees_below positive).bind fun generator => ?_
    unfold quotientAt
    split
    · exact Guarded.agrees_lift (Guard.word_of_contains (above ▸ ceilFits))
    · exact Guarded.agrees_pure _

/-- Rounding a word away from zero by a positive denominator does not fail. -/
theorem agrees_awayFromZero
    (fits : Bounds.int64.Contains numerator)
    (positive : 0 < denominator) :
    Guarded.Agrees (awayFromZero.quotientGuarded numerator denominator)
      (awayFromZero.quotient numerator denominator) := by
  have nonzero : (denominator : Int) ≠ 0 := by omega
  obtain ⟨floorFits, ceilFits⟩ := contains_quotients fits positive
  have magnitude : magnitudeUp numerator denominator =
      if numerator < 0 then -(numerator / denominator) else -(-numerator / denominator) := by
    unfold magnitudeUp
    split
    · rw [Int.ofNat_natAbs_of_nonpos (by omega), Int.neg_neg, Int.natAbs_natCast]
    · rw [Int.natAbs_of_nonneg (by omega), Int.natAbs_natCast]
  -- The magnitude of the lowest word is no signed word, but an unsigned one.
  have fitsUnsigned : unsigned64.Contains (magnitudeUp numerator denominator) := by
    rw [Bounds.contains_int64_iff] at floorFits ceilFits
    show 0 ≤ _ ∧ _ ≤ 18446744073709551615
    rw [magnitude]
    split
    · have nonpositive : numerator / (denominator : Int) < 1 := by
        rw [Int.ediv_lt_iff_lt_mul (by omega)]
        omega
      omega
    · have nonpositive : -numerator / (denominator : Int) < 1 := by
        rw [Int.ediv_lt_iff_lt_mul (by omega)]
        omega
      omega
  unfold quotientGuarded quotient
  refine Guarded.agrees_lift_bind (Guard.divided_of_contains nonzero fitsUnsigned) ?_
  rw [magnitude, quotientAway]
  by_cases negative : numerator < 0
  · simp only [if_pos negative, Int.neg_neg, Bounds.clamp_eq_self floorFits]
    exact Guarded.agrees_pure _
  · simp only [if_neg negative, Bounds.clamp_eq_self ceilFits]
    exact Guarded.agrees_pure _

/-- Rounding a quotient of a word by a positive denominator does not fail. -/
theorem agrees_quotient
    (mode : RoundingMode)
    (fits : Bounds.int64.Contains numerator)
    (positive : 0 < denominator) :
    Guarded.Agrees (mode.quotientGuarded numerator denominator)
      (mode.quotient numerator denominator) := by
  cases mode with
  | stochastic => exact agrees_stochastic fits positive
  | awayFromZero => exact agrees_awayFromZero fits positive
  | towardZero =>
      have nonzero : (denominator : Int) ≠ 0 := by omega
      intro generator
      have quotientFits := towardZero.contains_run_quotient fits positive generator
      exact Guarded.agrees_lift (Guard.divided_of_contains nonzero quotientFits) generator

/-- The decay of a word of 32 bits by a fraction with a numerator of 16 bits does not fail. -/
theorem agrees_decayByRatio
    (mode : RoundingMode)
    {value : Int}
    (fits : Bounds.int32.Contains value)
    {ratio : Nat}
    (small : ratio ≤ 65535)
    (denominator : Nat) :
    Guarded.Agrees (mode.decayByRatioGuarded value ratio denominator)
      (mode.decayByRatio value ratio denominator) := by
  unfold decayByRatioGuarded decayByRatio
  by_cases held : denominator = 0 ∨ (ratio : Int) = 0 ∨ value = 0
  · have heldHere : (denominator : Int) = 0 ∨ (ratio : Int) = 0 ∨ value = 0 := by omega
    rw [if_pos heldHere, if_pos held]
    exact Guarded.agrees_pure _
  · have decaysHere : ¬ ((denominator : Int) = 0 ∨ (ratio : Int) = 0 ∨ value = 0) := by omega
    have positive : 0 < denominator := by omega
    rw [Bounds.contains_int32_iff] at fits
    have atLeast := Int.mul_le_mul_of_nonneg_right fits.1 (Int.natCast_nonneg ratio)
    have atMost := Int.mul_le_mul_of_nonneg_right fits.2 (Int.natCast_nonneg ratio)
    have productFits : Bounds.int64.Contains (value * ratio) := by
      rw [Bounds.contains_int64_iff]
      omega
    rw [if_neg decaysHere, if_neg held]
    refine Guarded.agrees_lift_bind (Guard.word_of_contains productFits) ?_
    refine (agrees_quotient mode productFits positive).bind fun generator => ?_
    have differenceFits : Bounds.int64.Contains
        (value - ((mode.quotient (value * ratio) denominator).run generator).1) := by
      obtain ⟨above, below⟩ := mode.run_quotient_between (value * ratio) positive generator
      have floor : -140737488355328 ≤ value * ratio / (denominator : Int) := by
        rw [Int.le_ediv_iff_mul_le (by omega)]
        omega
      have ceil : -140737488355328 ≤ -(value * ratio) / (denominator : Int) := by
        rw [Int.le_ediv_iff_mul_le (by omega)]
        omega
      rw [Bounds.contains_int64_iff]
      omega
    exact Guarded.agrees_lift_bind (Guard.word_of_contains differenceFits) (Guarded.agrees_pure _)

theorem agrees_decay
    (mode : RoundingMode)
    {value : Int}
    (fits : Bounds.int32.Contains value)
    {constant : Nat}
    (small : constant ≤ 65535) :
    Guarded.Agrees (mode.decayGuarded value constant) (mode.decay value constant) :=
  agrees_decayByRatio mode fits small _

/-- Rounding a word onto multiples does not fail. -/
theorem agrees_roundToMultiple
    (mode : RoundingMode)
    {value : Int}
    (fits : Bounds.int64.Contains value)
    (multiple : Int) :
    Guarded.Agrees (mode.roundToMultipleGuarded value multiple)
      (mode.roundToMultiple value multiple) := by
  unfold roundToMultipleGuarded roundToMultiple
  by_cases whole : multiple ≤ 1
  · rw [if_pos whole, if_pos whole]
    exact Guarded.agrees_pure _
  · have positive : 0 < multiple.toNat := by omega
    have agrees := agrees_quotient mode fits positive
    rw [Int.toNat_of_nonneg (by omega)] at agrees
    rw [if_neg whole, if_neg whole]
    exact agrees.bind fun _ => Guarded.agrees_pure _

end Neurochip.RoundingMode
