import Neurochip.Proofs.Failure.Rounding
import Neurochip.Proofs.Rounding.Quotients
import Neurochip.Proofs.Weight.Stored

namespace Neurochip

/-!
# Weights in exact arithmetic

A weight is stored by limiting, dividing, shifting and limiting again, all in
words.  The main statement says that nothing is lost on the way: the stored
weight is the one that exact arithmetic gives, on the grid and in the range of
its sign, and larger mantissas never give smaller weights.
-/

/-- Limiting changes nothing but values that end at an end of the range. -/
theorem Bounds.contains_of_clamp
    {bounds : Bounds}
    {value : Int}
    (inside : bounds.lower < bounds.clamp value ∧ bounds.clamp value < bounds.upper) :
    bounds.Contains value := by
  unfold clamp at inside
  unfold Contains
  split at inside
  · omega
  · split at inside <;> omega

/-- Scaling by a power of two of at most 62 rounds down, and stays within words. -/
theorem FixedPoint.scalePow2_eq_floor
    {value exponent : Int}
    (fits : Bounds.int64.Contains value)
    (supported : exponent ≤ 62) :
    scalePow2 value exponent = Bounds.int64.clamp ⌊(value : ℚ) * 2 ^ exponent⌋ := by
  unfold scalePow2
  split
  · rename_i nonnegative
    obtain ⟨shift, rfl⟩ := Int.eq_ofNat_of_zero_le nonnegative
    have power : 2 ^ shift ≤ 2 ^ 62 := Nat.pow_le_pow_right (by decide) (by omega)
    have factor : wrapSigned 64 (1 <<< shift : Nat) = 2 ^ shift := by
      have small : Bounds.int64.Contains (1 <<< shift : Nat) := by
        rw [Bounds.contains_int64_iff, Nat.shiftLeft_eq]
        omega
      rw [wrapSigned_of_contains small, Nat.shiftLeft_eq, Nat.one_mul]
      norm_cast
    have product : (value : ℚ) * 2 ^ (shift : Int) = (value * 2 ^ shift : Int) := by
      push_cast
      rw [zpow_natCast]
    rw [Int.toNat_natCast, factor, product, Int.floor_intCast]
  · rename_i negative
    obtain ⟨shift, same⟩ := Int.eq_ofNat_of_zero_le (by omega : 0 ≤ -exponent)
    have quotient : (value : ℚ) * 2 ^ exponent = (value : ℚ) / (2 ^ shift : Nat) := by
      rw [← neg_neg exponent, same, zpow_neg, zpow_natCast, div_eq_mul_inv, Nat.cast_pow,
        Nat.cast_ofNat]
    have small : Bounds.int64.Contains (value / (2 ^ shift : Nat)) :=
      (RoundingMode.contains_quotients fits (Nat.two_pow_pos shift)).1
    rw [quotient, Rat.floor_intCast_div_natCast, Bounds.clamp_eq_self small, same,
      Int.toNat_natCast, Int.shiftRight_eq_div_pow]

namespace Quantizer

/-- A mantissa limited to the range of its sign and truncated to a multiple of the precision. -/
def exactMantissa (quantizer : Quantizer) (mantissa : Int) : Int :=
  truncated (quantizer.signMode.range.clamp mantissa / quantizer.precision) * quantizer.precision

/-- A mantissa scaled by a power of two, rounded down to a multiple of the unit and limited. -/
def exactActual (quantizer : Quantizer) (mantissa : Int) : Int :=
  actualRange.clamp (64 * ⌊(mantissa : ℚ) * 2 ^ quantizer.exponent⌋)

/-- The weight for a mantissa in exact arithmetic. -/
def exactWeight (quantizer : Quantizer) (mantissa : Int) : Weight :=
  { mantissa := quantizer.exactMantissa mantissa
    actual := quantizer.exactActual (quantizer.exactMantissa mantissa) }

variable {quantizer : Quantizer}

theorem onGrid_eq_exactMantissa (quantizer : Quantizer) (mantissa : Int) :
    quantizer.onGrid mantissa = quantizer.exactMantissa mantissa := by
  have whole : (quantizer.precision.toNat : Int) = quantizer.precision :=
    Int.toNat_of_nonneg (Int.le_of_lt quantizer.precision_pos)
  have quotient := RoundingMode.quotientToward_eq_truncated
    (quantizer.signMode.range.clamp mantissa) quantizer.precision.toNat
  rw [RoundingMode.quotientToward, whole] at quotient
  rw [onGrid, quotient, ← Int.cast_natCast, whole, exactMantissa]

/-- With a supported exponent the delivered value is the exact one. -/
theorem actualWeight_eq_exactActual
    {mantissa : Int}
    (small : -256 ≤ mantissa ∧ mantissa ≤ 255)
    (supported : -8 ≤ quantizer.exponent ∧ quantizer.exponent ≤ 7) :
    quantizer.actualWeight mantissa = quantizer.exactActual mantissa := by
  have fits : Bounds.int64.Contains mantissa := by
    rw [Bounds.contains_int64_iff]
    omega
  have scaled := FixedPoint.scalePow2_eq_floor fits
    (by omega : quantizer.exponent ≤ 62)
  obtain ⟨_, lower, upper⟩ := scalePow2Guarded_eq small supported
  rw [scaled] at lower upper
  have inside : Bounds.int64.Contains ⌊(mantissa : ℚ) * 2 ^ quantizer.exponent⌋ :=
    Bounds.contains_of_clamp ⟨Int.lt_of_lt_of_le (by decide) lower,
      Int.lt_of_le_of_lt upper (by decide)⟩
  rw [actualWeight_eq small supported, scaled, Bounds.clamp_eq_self inside, Int.mul_comm]
  rfl

theorem quantize_eq_exactWeight
    (supported : -8 ≤ quantizer.exponent ∧ quantizer.exponent ≤ 7)
    (mantissa : Int) :
    quantizer.quantize mantissa = quantizer.exactWeight mantissa := by
  have small := contains_range (quantizer.contains_onGrid mantissa)
  rw [quantize_eq, actualWeight_eq_exactActual small supported, onGrid_eq_exactMantissa,
    exactWeight]

/-- Moving mantissas onto the grid keeps their order. -/
theorem onGrid_le_onGrid
    (quantizer : Quantizer)
    {small large : Int}
    (ordered : small ≤ large) :
    quantizer.onGrid small ≤ quantizer.onGrid large :=
  Int.mul_le_mul_of_nonneg_right
    (Int.tdiv_le_tdiv quantizer.precision_pos (Bounds.clamp_le_clamp _ ordered))
    (Int.le_of_lt quantizer.precision_pos)

/-- Scaling and limiting mantissas keeps their order. -/
theorem exactActual_le_exactActual
    (quantizer : Quantizer)
    {small large : Int}
    (ordered : small ≤ large) :
    quantizer.exactActual small ≤ quantizer.exactActual large := by
  have scaled : (small : ℚ) * 2 ^ quantizer.exponent ≤ large * 2 ^ quantizer.exponent :=
    mul_le_mul_of_nonneg_right (by exact_mod_cast ordered) (zpow_nonneg zero_le_two _)
  exact Bounds.clamp_le_clamp _
    (Int.mul_le_mul_of_nonneg_left (Int.floor_le_floor scaled) (by decide))

/-- Delivered values are multiples of their unit, as both ends of their range are. -/
theorem dvd_exactActual (quantizer : Quantizer) (mantissa : Int) :
    FixedPoint.mantissaUnit ∣ quantizer.exactActual mantissa := by
  have lower : FixedPoint.mantissaUnit ∣ actualRange.lower := by decide
  have upper : FixedPoint.mantissaUnit ∣ actualRange.upper := by decide
  unfold exactActual Bounds.clamp
  split
  · exact lower
  · split
    · exact upper
    · exact Int.dvd_mul_right _ _

/-- What a quantizer makes of a mantissa. -/
structure Quantizes (quantizer : Quantizer) (mantissa : Int) : Prop where
  neverFails : quantizer.quantizeGuarded mantissa = .ok (quantizer.quantize mantissa)
  exactly : quantizer.quantize mantissa = quantizer.exactWeight mantissa
  /-- The weight is stored again unchanged, and it has a sign that is allowed. -/
  stores : quantizer.Stores (quantizer.quantize mantissa)
  granular : FixedPoint.mantissaUnit ∣ (quantizer.quantize mantissa).actual
  sameSide : (0 ≤ (quantizer.quantize mantissa).mantissa →
      0 ≤ (quantizer.quantize mantissa).actual) ∧
    ((quantizer.quantize mantissa).mantissa ≤ 0 → (quantizer.quantize mantissa).actual ≤ 0)
  ordered : ∀ large, mantissa ≤ large →
    (quantizer.quantize mantissa).mantissa ≤ (quantizer.quantize large).mantissa ∧
      (quantizer.quantize mantissa).actual ≤ (quantizer.quantize large).actual

/-- With a supported exponent every quantizer stores the weight that exact arithmetic gives. -/
theorem quantize_is_exact
    (supported : -8 ≤ quantizer.exponent ∧ quantizer.exponent ≤ 7)
    (mantissa : Int) :
    quantizer.Quantizes mantissa := by
  have exactly := quantize_eq_exactWeight supported
  refine
    { neverFails := quantizeGuarded_eq supported mantissa
      exactly := exactly mantissa
      stores := stores_of_quantize_eq supported (quantizer.quantize_mantissa_quantize mantissa)
      granular := exactly mantissa ▸ quantizer.dvd_exactActual _
      sameSide := actualWeight_sign (contains_range (quantizer.contains_onGrid mantissa)) supported
      ordered := ?_ }
  intro large ordered
  have onGrid := quantizer.onGrid_le_onGrid ordered
  refine ⟨onGrid, ?_⟩
  rw [onGrid_eq_exactMantissa, onGrid_eq_exactMantissa] at onGrid
  rw [exactly, exactly]
  exact quantizer.exactActual_le_exactActual onGrid

/-- Mixed weights of six bits and a quarter of the usual size, below zero and beyond the range. -/
theorem quantize_is_exact_mixed :
    (-8 ≤ (-2 : Int) ∧ (-2 : Int) ≤ 7) ∧
      Quantizes ⟨.mixed, 6, -2⟩ (-15) ∧ Quantizes ⟨.mixed, 6, -2⟩ 9223372036854775807 :=
  ⟨by decide, quantize_is_exact (by decide) (-15), quantize_is_exact (by decide) _⟩

/-- `-15` is moved to `-8`, a quarter of which is delivered in units of `64`. -/
example : quantize ⟨.mixed, 6, -2⟩ (-15) = ⟨-8, -128⟩ := by decide

end Quantizer

end Neurochip
