import Neurochip.FixedPoint

namespace Neurochip

/-!
# Rounding answers a neighbour of the quotient

Whatever the mode and the generator, a rounded quotient is the integer below the
exact quotient or the one above it.  Therefore a value that loses a fraction of
itself ends between zero and where it was.
-/

namespace RoundingMode

/-- The integer above a quotient is the one below it or the next one. -/
theorem neg_neg_ediv
    (numerator : Int)
    {denominator : Int}
    (positive : 0 < denominator) :
    -(-numerator / denominator) =
      if numerator % denominator = 0 then
        numerator / denominator
      else
        numerator / denominator + 1 := by
  have whole := Int.mul_ediv_add_emod numerator denominator
  have nonnegative := Int.emod_nonneg numerator (Int.ne_of_gt positive)
  have below := Int.emod_lt_of_pos numerator positive
  split
  · rename_i divisible
    have exactly : -numerator = denominator * -(numerator / denominator) := by
      rw [Int.mul_neg]
      omega
    rw [exactly, Int.mul_ediv_cancel_left _ (Int.ne_of_gt positive), Int.neg_neg]
  · rename_i rest
    have shifted :
        -numerator =
          (denominator - numerator % denominator) +
            denominator * (-(numerator / denominator) - 1) := by
      rw [Int.mul_sub, Int.mul_neg]
      omega
    rw [shifted, Int.add_mul_ediv_left _ _ (Int.ne_of_gt positive),
      Int.ediv_eq_zero_of_lt (by omega) (by omega)]
    omega

/-- A rounded quotient is one of the two integers around the exact quotient. -/
theorem run_quotient_between
    (mode : RoundingMode)
    (numerator : Int)
    {denominator : Nat}
    (positive : 0 < denominator)
    (generator : Generator) :
    numerator / denominator ≤ ((mode.quotient numerator denominator).run generator).1 ∧
      ((mode.quotient numerator denominator).run generator).1 ≤
        -(-numerator / (denominator : Int)) := by
  have positive : 0 < (denominator : Int) := Int.natCast_pos.mpr positive
  have above := neg_neg_ediv numerator positive
  cases mode with
  | stochastic =>
      unfold quotient
      by_cases divisible : numerator % (denominator : Int) = 0
      · simp [divisible, above]
      · simp only [divisible, if_false, Draw.run_bind, Draw.run_pure, above, quotientAt]
        split <;> omega
  | awayFromZero =>
      simp only [quotient, quotientAway, Draw.run_pure]
      split <;> split at above <;> omega
  | towardZero =>
      simp only [quotient, quotientToward, Draw.run_pure, Int.tdiv_eq_ediv,
        Int.sign_eq_one_of_pos positive, Int.dvd_iff_emod_eq_zero]
      split at above <;> split <;> omega

/-- A value that loses a proper fraction of itself ends between zero and where it was. -/
theorem run_decayByRatio_between
    (mode : RoundingMode)
    {value numerator low high : Int}
    {denominator : Nat}
    (nonnegative : 0 ≤ numerator)
    (proper : denominator = 0 ∨ numerator ≤ denominator)
    (lowNonpositive : low ≤ 0)
    (highNonnegative : 0 ≤ high)
    (between : low ≤ value ∧ value ≤ high)
    (generator : Generator) :
    low ≤ ((mode.decayByRatio value numerator denominator).run generator).1 ∧
      ((mode.decayByRatio value numerator denominator).run generator).1 ≤ high := by
  unfold decayByRatio
  split
  · exact between
  · rename_i decays
    have positive : 0 < denominator := by omega
    have positiveInt : 0 < (denominator : Int) := by omega
    have proper : numerator ≤ denominator := by omega
    obtain ⟨below, above⟩ :=
      run_quotient_between mode (value * numerator) positive generator
    simp only [Draw.run_bind, Draw.run_pure]
    apply Bounds.clamp_between (by decide) lowNonpositive highNonnegative
    -- The decrement lies between zero and the value, on either side of zero.
    rcases Int.le_total 0 value with rising | falling
    · have product := Int.mul_le_mul_of_nonneg_left proper rising
      have floorNonnegative : 0 ≤ value * numerator / denominator :=
        Int.ediv_nonneg (Int.mul_nonneg rising nonnegative) (Int.le_of_lt positiveInt)
      have ceilAtMost : -value ≤ -(value * numerator) / denominator := by
        rw [Int.le_ediv_iff_mul_le positiveInt, Int.neg_mul]
        omega
      omega
    · have product := Int.mul_le_mul_of_nonpos_left falling proper
      have floorAtLeast : value ≤ value * numerator / denominator := by
        rw [Int.le_ediv_iff_mul_le positiveInt]
        exact product
      have ceilNonpositive : 0 ≤ -(value * numerator) / denominator :=
        Int.ediv_nonneg
          (Int.neg_nonneg_of_nonpos (Int.mul_nonpos_of_nonpos_of_nonneg falling nonnegative))
          (Int.le_of_lt positiveInt)
      omega

end RoundingMode

end Neurochip
