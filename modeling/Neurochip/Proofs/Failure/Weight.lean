import Neurochip.Params.Acceptable
import Neurochip.Proofs.Failure.Guarded
import Neurochip.Proofs.Weight.Grid

namespace Neurochip

/-!
# Storing a weight does not fail

The exponents and numbers of bits that are accepted keep all shifts short, and
all mantissas so small that no bit of them is shifted out of its word.
-/

theorem wrapSigned_of_contains
    {value : Int}
    (fits : Bounds.int64.Contains value) :
    wrapSigned 64 value = value := by
  have size : (1 <<< 64 : Nat) = 18446744073709551616 := by decide
  rw [Bounds.contains_int64_iff] at fits
  rw [wrapSigned, size]
  exact Int.bmod_eq_of_le_mul_two (by omega) (by omega)

/-- A value scaled by a power of two, by shifts of words of 64 bits. -/
def FixedPoint.scalePow2Guarded (value exponent : Int) : Except Failure Int :=
  if 0 ≤ exponent then do
    let factor ← Guard.shiftedLeft .int64 64 1 exponent
    return Bounds.int64.clamp (value * factor)
  else do
    let shift ← Guard.word .int32 (-exponent)
    Guard.shiftedRight 64 value shift

namespace Quantizer

/-- The distance between two neighbouring mantissas, by a shift of a word of 32 bits. -/
def precisionGuarded (quantizer : Quantizer) : Except Failure Int := do
  let magnitudeBits ← Guard.word .int32 quantizer.magnitudeBits
  let unusedBits ← Guard.word .int32 (mantissaBits - magnitudeBits)
  Guard.shiftedLeft .int32 32 1 unusedBits

/-- The value delivered for a mantissa, by shifts of words of 64 bits. -/
def actualWeightGuarded (quantizer : Quantizer) (mantissa : Int) : Except Failure Int := do
  let scaled ← FixedPoint.scalePow2Guarded mantissa quantizer.exponent
  let shifted ← Guard.shiftedLeft .int64 64 scaled 6
  return actualRange.clamp shifted

/-- The weight for a mantissa, computed in words. -/
def quantizeGuarded (quantizer : Quantizer) (mantissa : Int) : Except Failure Weight := do
  let clamped := quantizer.signMode.range.clamp mantissa
  let precision ← quantizer.precisionGuarded
  let quotient ← Guard.divided .int32 Int.tdiv clamped precision
  let onGrid ← Guard.word .int32 (quotient * precision)
  let actual ← quantizer.actualWeightGuarded onGrid
  return { mantissa := onGrid, actual := actual }

/-- At most nine bits of a mantissa are unused. -/
theorem unusedBits_between (quantizer : Quantizer) :
    0 ≤ mantissaBits - quantizer.magnitudeBits ∧ mantissaBits - quantizer.magnitudeBits ≤ 9 := by
  unfold magnitudeBits mantissaBits
  dsimp only
  split <;> omega

theorem precision_le (quantizer : Quantizer) : quantizer.precision ≤ 512 := by
  have short := quantizer.unusedBits_between
  have power : (2 : Nat) ^ (mantissaBits - quantizer.magnitudeBits).toNat ≤ 2 ^ 9 :=
    Nat.pow_le_pow_right (by decide) (by omega)
  rw [precision, Nat.shiftLeft_eq, Nat.one_mul]
  exact Int.ofNat_le.mpr (Nat.le_trans power (by decide))

/-- The distance between two mantissas is computed without failure. -/
theorem precisionGuarded_eq (quantizer : Quantizer) :
    quantizer.precisionGuarded = .ok quantizer.precision := by
  have positive := quantizer.precision_pos
  have small := quantizer.precision_le
  have short := quantizer.unusedBits_between
  have eight : (mantissaBits : Int) = 8 := rfl
  have fits : Bounds.int32.Contains (1 * quantizer.precision) := by
    rw [Bounds.contains_int32_iff]
    omega
  unfold precisionGuarded
  rw [bind_of_eq_ok (Guard.word_of_contains (Bounds.contains_int32_iff.mpr (by omega))),
    bind_of_eq_ok (Guard.word_of_contains (Bounds.contains_int32_iff.mpr (by omega)))]
  refine (Guard.shiftedLeft_of_contains (by omega) fits).trans ?_
  rw [← precision, Int.one_mul]

/-- A mantissa of at most nine bits is scaled by a supported exponent without failure, and stays
small. -/
theorem scalePow2Guarded_eq
    {mantissa exponent : Int}
    (small : -256 ≤ mantissa ∧ mantissa ≤ 255)
    (supported : -8 ≤ exponent ∧ exponent ≤ 7) :
    FixedPoint.scalePow2Guarded mantissa exponent =
        .ok (FixedPoint.scalePow2 mantissa exponent) ∧
      -32768 ≤ FixedPoint.scalePow2 mantissa exponent ∧
      FixedPoint.scalePow2 mantissa exponent ≤ 32768 := by
  unfold FixedPoint.scalePow2Guarded FixedPoint.scalePow2
  split
  · have power : 2 ^ exponent.toNat ≤ 2 ^ 7 := Nat.pow_le_pow_right (by decide) (by omega)
    have positive := Nat.two_pow_pos exponent.toNat
    have fits : Bounds.int64.Contains (2 ^ exponent.toNat : Nat) := by
      rw [Bounds.contains_int64_iff]
      omega
    have shifted : Guard.shiftedLeft .int64 64 1 exponent = .ok (2 ^ exponent.toNat : Nat) := by
      rw [← Nat.one_mul (2 ^ exponent.toNat), ← Nat.shiftLeft_eq] at fits ⊢
      rw [Guard.shiftedLeft_of_contains (by omega) (by rwa [Int.one_mul]), Int.one_mul]
    have atLeast := Int.mul_le_mul_of_nonneg_right small.1
      (Int.natCast_nonneg (2 ^ exponent.toNat))
    have atMost := Int.mul_le_mul_of_nonneg_right small.2
      (Int.natCast_nonneg (2 ^ exponent.toNat))
    have productFits : Bounds.int64.Contains (mantissa * (2 ^ exponent.toNat : Nat)) := by
      rw [Bounds.contains_int64_iff]
      omega
    rw [bind_of_eq_ok shifted, Nat.shiftLeft_eq, Nat.one_mul, wrapSigned_of_contains fits,
      Bounds.clamp_eq_self productFits]
    exact ⟨rfl, by omega, by omega⟩
  · have positive := Nat.two_pow_pos (-exponent).toNat
    have floor : -32768 ≤ mantissa / (2 ^ (-exponent).toNat : Nat) := by
      rw [Int.le_ediv_iff_mul_le (by omega)]
      omega
    have below : mantissa / (2 ^ (-exponent).toNat : Nat) < 32769 := by
      rw [Int.ediv_lt_iff_lt_mul (by omega)]
      omega
    have shift : Guard.word .int32 (-exponent) = .ok (-exponent) :=
      Guard.word_of_contains (Bounds.contains_int32_iff.mpr (by omega))
    rw [bind_of_eq_ok shift, Guard.shiftedRight, if_pos (by omega), Int.shiftRight_eq_div_pow]
    exact ⟨rfl, floor, by omega⟩

/-- The value delivered for a mantissa is computed without failure. -/
theorem actualWeightGuarded_eq
    {quantizer : Quantizer}
    {mantissa : Int}
    (small : -256 ≤ mantissa ∧ mantissa ≤ 255)
    (supported : -8 ≤ quantizer.exponent ∧ quantizer.exponent ≤ 7) :
    quantizer.actualWeightGuarded mantissa = .ok (quantizer.actualWeight mantissa) := by
  obtain ⟨scaled, lower, upper⟩ := scalePow2Guarded_eq small supported
  have fits : Bounds.int64.Contains
      (FixedPoint.scalePow2 mantissa quantizer.exponent * FixedPoint.mantissaUnit) := by
    rw [Bounds.contains_int64_iff, FixedPoint.mantissaUnit]
    omega
  have shifted : Guard.shiftedLeft .int64 64
      (FixedPoint.scalePow2 mantissa quantizer.exponent) 6 =
        .ok (FixedPoint.scalePow2 mantissa quantizer.exponent * FixedPoint.mantissaUnit) :=
    Guard.shiftedLeft_of_contains (by decide) fits
  unfold actualWeightGuarded actualWeight
  dsimp only
  rw [bind_of_eq_ok scaled, bind_of_eq_ok shifted, wrapSigned_of_contains fits]
  rfl

/-- The mantissas of every sign have at most eight bits and a sign. -/
theorem contains_range {mode : SignMode} {mantissa : Int} (inside : mode.range.Contains mantissa) :
    -256 ≤ mantissa ∧ mantissa ≤ 255 := by
  obtain ⟨lower, upper⟩ := inside
  cases mode <;> simp only [SignMode.range] at lower upper <;> omega

/-- A weight is stored without failure. -/
theorem quantizeGuarded_eq
    {quantizer : Quantizer}
    (supported : -8 ≤ quantizer.exponent ∧ quantizer.exponent ≤ 7)
    (mantissa : Int) :
    quantizer.quantizeGuarded mantissa = .ok (quantizer.quantize mantissa) := by
  have positive := quantizer.precision_pos
  obtain ⟨lower, upper⟩ := contains_range (quantizer.contains_onGrid mantissa)
  unfold quantizeGuarded
  rw [bind_of_eq_ok quantizer.precisionGuarded_eq]
  have nonzero : quantizer.precision ≠ 0 := Int.ne_of_gt positive
  have clamped := contains_range
    (Bounds.contains_clamp quantizer.signMode.range mantissa)
  have quotientFits : Bounds.int32.Contains
      ((quantizer.signMode.range.clamp mantissa).tdiv quantizer.precision) := by
    have smaller := Int.natAbs_tdiv_le_natAbs (quantizer.signMode.range.clamp mantissa)
      quantizer.precision
    rw [Bounds.contains_int32_iff]
    omega
  have productFits : Bounds.int32.Contains (quantizer.onGrid mantissa) :=
    Bounds.contains_int32_iff.mpr (by omega)
  have product : Guard.word .int32
      ((quantizer.signMode.range.clamp mantissa).tdiv quantizer.precision *
        quantizer.precision) = .ok (quantizer.onGrid mantissa) :=
    Guard.word_of_contains productFits
  rw [bind_of_eq_ok (Guard.divided_of_contains nonzero quotientFits),
    bind_of_eq_ok product,
    bind_of_eq_ok (actualWeightGuarded_eq ⟨lower, upper⟩ supported)]
  rfl

end Quantizer

end Neurochip
