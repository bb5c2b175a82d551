import Neurochip.Proofs.Failure.Weight

namespace Neurochip

/-!
# Stored weights and their signs

A weight that its quantizer stores again unchanged lies in the range of its sign
and on the grid.  With a supported exponent the delivered value has the sign of
the mantissa, so no excitatory synapse inhibits and no inhibitory one excites.
-/

/-- A range around zero limits a value without taking it to the other side. -/
theorem Bounds.clamp_sign
    {bounds : Bounds}
    (zeroInside : bounds.Contains 0)
    (value : Int) :
    (0 ≤ value → 0 ≤ bounds.clamp value) ∧ (value ≤ 0 → bounds.clamp value ≤ 0) :=
  ⟨fun nonnegative =>
    (clamp_between zeroInside (Int.le_refl 0) nonnegative ⟨nonnegative, Int.le_refl value⟩).1,
  fun nonpositive =>
    (clamp_between zeroInside nonpositive (Int.le_refl 0) ⟨Int.le_refl value, nonpositive⟩).2⟩

theorem wrapSigned_shiftLeft_nonneg
    {exponent : Int}
    (supported : exponent ≤ 7) :
    0 ≤ wrapSigned 64 (1 <<< exponent.toNat : Nat) := by
  have power : 2 ^ exponent.toNat ≤ 2 ^ 7 := Nat.pow_le_pow_right (by decide) (by omega)
  have fits : Bounds.int64.Contains (1 <<< exponent.toNat : Nat) := by
    rw [Bounds.contains_int64_iff, Nat.shiftLeft_eq]
    omega
  rw [wrapSigned_of_contains fits]
  exact Int.natCast_nonneg _

/-- Scaling keeps a value on its side of zero. -/
theorem FixedPoint.scalePow2_sign
    {exponent : Int}
    (supported : exponent ≤ 7)
    (value : Int) :
    (0 ≤ value → 0 ≤ scalePow2 value exponent) ∧ (value ≤ 0 → scalePow2 value exponent ≤ 0) := by
  have zeroInside : Bounds.int64.Contains 0 := by decide
  unfold scalePow2
  split
  · have factor := wrapSigned_shiftLeft_nonneg supported
    obtain ⟨rising, falling⟩ := Bounds.clamp_sign zeroInside
      (value * wrapSigned 64 (1 <<< exponent.toNat : Nat))
    exact ⟨fun nonnegative => rising (Int.mul_nonneg nonnegative factor),
      fun nonpositive => falling (Int.mul_nonpos_of_nonpos_of_nonneg nonpositive factor)⟩
  · have divisor : (0 : Int) < (2 ^ (-exponent).toNat : Nat) :=
      Int.natCast_pos.mpr (Nat.two_pow_pos _)
    rw [Int.shiftRight_eq_div_pow]
    constructor
    · exact fun nonnegative => Int.ediv_nonneg nonnegative (Int.le_of_lt divisor)
    · exact fun nonpositive => by simpa using Int.ediv_le_ediv divisor nonpositive

namespace Quantizer

/-- With a supported exponent nothing is lost before the delivered value is limited. -/
theorem actualWeight_eq
    {quantizer : Quantizer}
    {mantissa : Int}
    (small : -256 ≤ mantissa ∧ mantissa ≤ 255)
    (supported : -8 ≤ quantizer.exponent ∧ quantizer.exponent ≤ 7) :
    quantizer.actualWeight mantissa =
      actualRange.clamp
        (FixedPoint.scalePow2 mantissa quantizer.exponent * FixedPoint.mantissaUnit) := by
  obtain ⟨_, lower, upper⟩ := scalePow2Guarded_eq small supported
  have fits : Bounds.int64.Contains
      (FixedPoint.scalePow2 mantissa quantizer.exponent * FixedPoint.mantissaUnit) := by
    rw [Bounds.contains_int64_iff, FixedPoint.mantissaUnit]
    omega
  rw [actualWeight, wrapSigned_of_contains fits]

/-- The delivered value is on the side of zero of its mantissa. -/
theorem actualWeight_sign
    {quantizer : Quantizer}
    {mantissa : Int}
    (small : -256 ≤ mantissa ∧ mantissa ≤ 255)
    (supported : -8 ≤ quantizer.exponent ∧ quantizer.exponent ≤ 7) :
    (0 ≤ mantissa → 0 ≤ quantizer.actualWeight mantissa) ∧
      (mantissa ≤ 0 → quantizer.actualWeight mantissa ≤ 0) := by
  have zeroInside : actualRange.Contains 0 := by decide
  have unit : 0 ≤ FixedPoint.mantissaUnit := by decide
  obtain ⟨scaledUp, scaledDown⟩ := FixedPoint.scalePow2_sign supported.2 mantissa
  obtain ⟨rising, falling⟩ := Bounds.clamp_sign zeroInside
    (FixedPoint.scalePow2 mantissa quantizer.exponent * FixedPoint.mantissaUnit)
  rw [actualWeight_eq small supported]
  exact ⟨fun nonnegative => rising (Int.mul_nonneg (scaledUp nonnegative) unit),
    fun nonpositive => falling (Int.mul_nonpos_of_nonpos_of_nonneg (scaledDown nonpositive) unit)⟩

/-- A weight register as a quantizer leaves it. -/
structure Stores (quantizer : Quantizer) (weight : Weight) : Prop where
  stored : quantizer.quantize weight.mantissa = weight
  inRange : quantizer.signMode.range.Contains weight.mantissa
  onGrid : quantizer.precision ∣ weight.mantissa
  excitatory : quantizer.signMode = .excitatory → 0 ≤ weight.mantissa ∧ 0 ≤ weight.actual
  inhibitory : quantizer.signMode = .inhibitory → weight.mantissa ≤ 0 ∧ weight.actual ≤ 0

/-- What is stored again unchanged is in range, on the grid and of the right sign. -/
theorem stores_of_quantize_eq
    {quantizer : Quantizer}
    (supported : -8 ≤ quantizer.exponent ∧ quantizer.exponent ≤ 7)
    {weight : Weight}
    (stored : quantizer.quantize weight.mantissa = weight) :
    quantizer.Stores weight := by
  have onGrid : quantizer.onGrid weight.mantissa = weight.mantissa :=
    congrArg Weight.mantissa stored
  have delivered : quantizer.actualWeight weight.mantissa = weight.actual := by
    have same := congrArg Weight.actual stored
    rwa [quantize_eq, onGrid] at same
  have inRange := quantizer.contains_onGrid weight.mantissa
  rw [onGrid] at inRange
  obtain ⟨rising, falling⟩ := actualWeight_sign (contains_range inRange) supported
  rw [delivered] at rising falling
  refine ⟨stored, inRange, ?_, ?_, ?_⟩
  · rw [← onGrid]
    exact Int.dvd_mul_left _ _
  · intro excitatory
    rw [excitatory] at inRange
    exact ⟨inRange.1, rising inRange.1⟩
  · intro inhibitory
    rw [inhibitory] at inRange
    exact ⟨inRange.2, falling inRange.2⟩

end Quantizer

end Neurochip
