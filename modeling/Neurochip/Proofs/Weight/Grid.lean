import Neurochip.Weight

namespace Neurochip

/-!
# The grid of weights

Moving a mantissa onto the grid of its quantizer brings it toward zero, so it
stays in the range of its sign.  What is on the grid already stays where it is,
which is why a stored weight can be stored again.
-/

theorem SignMode.contains_zero (mode : SignMode) : mode.range.Contains 0 := by
  cases mode <;> decide

namespace Quantizer

theorem precision_pos (quantizer : Quantizer) : 0 < quantizer.precision := by
  unfold precision
  rw [Nat.shiftLeft_eq, Nat.one_mul]
  exact_mod_cast Nat.two_pow_pos _

/-- A mantissa in range, moved toward zero onto the grid. -/
def onGrid (quantizer : Quantizer) (mantissa : Int) : Int :=
  (quantizer.signMode.range.clamp mantissa).tdiv quantizer.precision * quantizer.precision

/-- A weight has the mantissa on the grid, and the value that is delivered for it. -/
theorem quantize_eq (quantizer : Quantizer) (mantissa : Int) :
    quantizer.quantize mantissa =
      ⟨quantizer.onGrid mantissa, quantizer.actualWeight (quantizer.onGrid mantissa)⟩ :=
  rfl

/-- Moving a value toward zero onto multiples of a number leaves it between zero and where it
was. -/
theorem tdiv_mul_between
    {multiple low high value : Int}
    (positive : 0 < multiple)
    (lowNonpositive : low ≤ 0)
    (highNonnegative : 0 ≤ high)
    (between : low ≤ value ∧ value ≤ high) :
    low ≤ value.tdiv multiple * multiple ∧ value.tdiv multiple * multiple ≤ high := by
  have whole := Int.tdiv_mul_add_tmod value multiple
  rcases Int.le_total 0 value with rising | falling
  · have rest := Int.tmod_nonneg multiple rising
    have quotient := Int.mul_nonneg (Int.tdiv_nonneg rising (Int.le_of_lt positive))
      (Int.le_of_lt positive)
    omega
  · have rest : value.tmod multiple ≤ 0 := by
      have mirrored := Int.tmod_nonneg multiple (Int.neg_nonneg_of_nonpos falling)
      rw [Int.neg_tmod] at mirrored
      omega
    have quotient : value.tdiv multiple * multiple ≤ 0 := by
      have mirrored := Int.mul_nonneg
        (Int.tdiv_nonneg (Int.neg_nonneg_of_nonpos falling) (Int.le_of_lt positive))
        (Int.le_of_lt positive)
      rw [Int.neg_tdiv, Int.neg_mul] at mirrored
      omega
    omega

theorem contains_onGrid (quantizer : Quantizer) (mantissa : Int) :
    quantizer.signMode.range.Contains (quantizer.onGrid mantissa) := by
  obtain ⟨lowNonpositive, highNonnegative⟩ := quantizer.signMode.contains_zero
  exact tdiv_mul_between quantizer.precision_pos lowNonpositive highNonnegative
    (Bounds.contains_clamp _ _)

/-- What is on the grid stays where it is. -/
theorem onGrid_onGrid (quantizer : Quantizer) (mantissa : Int) :
    quantizer.onGrid (quantizer.onGrid mantissa) = quantizer.onGrid mantissa := by
  have inside := quantizer.contains_onGrid mantissa
  have nonzero : quantizer.precision ≠ 0 := Int.ne_of_gt quantizer.precision_pos
  rw [onGrid, Bounds.clamp_eq_self inside, onGrid, Int.mul_tdiv_cancel _ nonzero]

/-- Storing the mantissa of a stored weight gives the same weight. -/
theorem quantize_mantissa_quantize (quantizer : Quantizer) (mantissa : Int) :
    quantizer.quantize (quantizer.quantize mantissa).mantissa = quantizer.quantize mantissa := by
  rw [quantize_eq quantizer mantissa, quantize_eq, onGrid_onGrid]

end Quantizer

end Neurochip
