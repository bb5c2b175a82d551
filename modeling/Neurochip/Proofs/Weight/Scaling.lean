import Neurochip.Proofs.Weight.Exact

namespace Neurochip

/-!
# Scaling beyond the range of words

The factor of a scaling is a word itself, and a scaled mantissa is multiplied by
its unit before it is limited.  Both can lose the sign of the value if the
exponent is large.  The main statement says for every exponent that a shift
admits which values are scaled and delivered exactly, and what is delivered for
the other ones.
-/

/-- What divides a power of two, and a value, divides the word with the low bits of the value. -/
theorem dvd_wrapSigned
    {bits : Nat}
    {divisor value : Int}
    (dividesSize : divisor ∣ (1 <<< bits : Nat))
    (divides : divisor ∣ value) :
    divisor ∣ wrapSigned bits value := by
  have whole := Int.bmod_add_bdiv value (1 <<< bits)
  rw [wrapSigned, ← Int.add_sub_cancel (value.bmod _), whole]
  exact Int.dvd_sub divides (dividesSize.mul_right _)

theorem Bounds.contains_int64_of_int32
    {value : Int}
    (inside : int32.Contains value) :
    int64.Contains value := by
  rw [contains_int32_iff] at inside
  rw [contains_int64_iff]
  omega

/-- What is outside of a range is limited to one of its ends. -/
theorem Bounds.clamp_eq_end
    {bounds : Bounds}
    {value : Int}
    (outside : ¬ bounds.Contains value) :
    bounds.clamp value = bounds.lower ∨ bounds.clamp value = bounds.upper := by
  unfold Contains at outside
  unfold clamp
  split
  · exact .inl rfl
  · split
    · exact .inr rfl
    · omega

namespace FixedPoint

variable {value exponent : Int}

/-- A value multiplied by a power of two and rounded down, in exact arithmetic. -/
def exactScaled (value exponent : Int) : Int :=
  ⌊(value : ℚ) * 2 ^ exponent⌋

/-- Nothing is rounded where the exponent is not negative. -/
theorem exactScaled_natCast (value : Int) (shift : Nat) :
    exactScaled value shift = value * 2 ^ shift := by
  have product : (value : ℚ) * 2 ^ (shift : Int) = (value * 2 ^ shift : Int) := by
    push_cast
    rw [zpow_natCast]
  rw [exactScaled, product, Int.floor_intCast]

theorem exactScaled_highest (value : Int) :
    exactScaled value 63 = value * 9223372036854775808 :=
  exactScaled_natCast value 63

/-- The factor for the exponent 63 is negative as a word, so that scaling by it mirrors the value. -/
theorem scalePow2_highest (value : Int) :
    scalePow2 value 63 = Bounds.int64.clamp (-exactScaled value 63) := by
  have factor : wrapSigned 64 (1 <<< (63 : Int).toNat : Nat) = -9223372036854775808 := by decide
  rw [scalePow2, if_pos (by decide), factor, exactScaled_highest, Int.mul_neg]

/-- Mirrored by the highest exponent, a value that is not zero ends at an end of the words. -/
theorem scalePow2_highest_eq_end (nonzero : value ≠ 0) :
    scalePow2 value 63 =
      if 0 < value then Bounds.int64.lower else Bounds.int64.upper := by
  rw [scalePow2_highest, exactScaled_highest, Bounds.clamp, Bounds.int64]
  dsimp only
  repeat' split
  all_goals omega

/-- Scaling is exact for all exponents but the highest one, which is exact for zero only. -/
theorem scalePow2_eq_clamp_iff
    (fits : Bounds.int64.Contains value)
    (supported : exponentRange.Contains exponent) :
    scalePow2 value exponent = Bounds.int64.clamp (exactScaled value exponent) ↔
      exponent ≤ 62 ∨ value = 0 := by
  by_cases usual : exponent ≤ 62
  · exact iff_of_true (scalePow2_eq_floor fits usual) (.inl usual)
  · obtain rfl : exponent = 63 := le_antisymm supported.2 (by omega)
    by_cases zero : value = 0
    · subst zero
      exact iff_of_true (by rw [scalePow2_highest, exactScaled_highest]; rfl) (.inr rfl)
    · refine iff_of_false ?_ (by omega)
      rw [scalePow2_highest_eq_end zero, exactScaled_highest, Bounds.clamp, Bounds.int64]
      dsimp only
      repeat' split
      all_goals omega

/-- What scaling makes of a word. -/
structure Scales (value exponent : Int) : Prop where
  answered : scalePow2? value exponent = some (scalePow2 value exponent)
  exact_iff : scalePow2 value exponent = Bounds.int64.clamp (exactScaled value exponent) ↔
    exponent ≤ 62 ∨ value = 0
  mirrored : exponent = 63 →
    scalePow2 value exponent = Bounds.int64.clamp (-exactScaled value exponent)

theorem scales
    (fits : Bounds.int64.Contains value)
    (supported : exponentRange.Contains exponent) :
    Scales value exponent where
  answered := if_pos supported
  exact_iff := scalePow2_eq_clamp_iff fits supported
  mirrored := by
    rintro rfl
    exact scalePow2_highest value

end FixedPoint

namespace Quantizer

open FixedPoint

variable {quantizer : Quantizer} {mantissa : Int}

/-- A scaled mantissa in the unit of delivered values, as a word. -/
def inUnits (scaled : Int) : Int :=
  wrapSigned 64 (scaled * mantissaUnit)

theorem actualWeight_eq_clamp_inUnits (quantizer : Quantizer) (mantissa : Int) :
    quantizer.actualWeight mantissa =
      actualRange.clamp (inUnits (scalePow2 mantissa quantizer.exponent)) :=
  rfl

theorem exactActual_eq_clamp (quantizer : Quantizer) (mantissa : Int) :
    quantizer.exactActual mantissa =
      actualRange.clamp (exactScaled mantissa quantizer.exponent * mantissaUnit) :=
  congrArg actualRange.clamp (Int.mul_comm _ _)

/-- A scaled mantissa is a word, and the word for it in the unit of delivered values has its sign. -/
def KeepsItsSign (scaled : Int) : Prop :=
  Bounds.int64.Contains scaled ∧ (inUnits scaled).sign = scaled.sign

/-- Whether a mantissa has the given number of bits and a sign. -/
def HasWidth (width : Nat) (mantissa : Int) : Prop :=
  -2 ^ width ≤ mantissa ∧ mantissa < 2 ^ width

theorem hasWidth_of_int32 (inWord : Bounds.int32.Contains mantissa) : HasWidth 31 mantissa := by
  rw [Bounds.contains_int32_iff] at inWord
  unfold HasWidth
  omega

/-- A scaled mantissa in the unit of delivered values is a word, if it has at most 57 bits before. -/
theorem contains_exactScaled_mul_unit
    {exponent : Int}
    {width : Nat}
    (hasWidth : HasWidth width mantissa)
    (small : exponent + width ≤ 57) :
    Bounds.int64.Contains (exactScaled mantissa exponent * mantissaUnit) := by
  have lower : -2 ^ width ≤ (mantissa : ℚ) := by exact_mod_cast hasWidth.1
  have upper : (mantissa : ℚ) < 2 ^ width := by exact_mod_cast hasWidth.2
  have factor : (0 : ℚ) < 2 ^ exponent := zpow_pos two_pos exponent
  have range : (2 : ℚ) ^ width * 2 ^ exponent ≤ 144115188075855872 := by
    calc (2 : ℚ) ^ width * 2 ^ exponent = 2 ^ (exponent + width) := by
          rw [zpow_add₀ two_ne_zero, zpow_natCast, mul_comm]
      _ ≤ 2 ^ (57 : Int) := zpow_le_zpow_right₀ one_le_two small
      _ = 144115188075855872 := by norm_num
  have floorLower : -144115188075855872 ≤ exactScaled mantissa exponent := by
    refine Int.le_floor.mpr ?_
    push_cast
    calc (-144115188075855872 : ℚ) ≤ -(2 ^ width * 2 ^ exponent) := neg_le_neg range
      _ = -2 ^ width * 2 ^ exponent := (neg_mul _ _).symm
      _ ≤ mantissa * 2 ^ exponent := mul_le_mul_of_nonneg_right lower factor.le
  have floorUpper : exactScaled mantissa exponent < 144115188075855872 := by
    refine Int.floor_lt.mpr ?_
    push_cast
    exact (mul_lt_mul_of_pos_right upper factor).trans_le range
  rw [Bounds.contains_int64_iff, mantissaUnit]
  omega

/-- Where the unit of delivered values leads to no larger word, the sign is kept. -/
theorem keepsItsSign_of_contains
    {scaled : Int}
    (inside : Bounds.int64.Contains (scaled * mantissaUnit)) :
    KeepsItsSign scaled := by
  have positive : mantissaUnit.sign = 1 := rfl
  refine ⟨?_, ?_⟩
  · rw [Bounds.contains_int64_iff, mantissaUnit] at inside
    rw [Bounds.contains_int64_iff]
    omega
  · rw [inUnits, wrapSigned_of_contains inside, Int.sign_mul, positive, Int.mul_one]

/-- The delivered value is exact if the scaled mantissa, in the unit of delivered values, is a
word. -/
theorem actualWeight_eq_of_contains
    (fits : Bounds.int64.Contains mantissa)
    (usual : quantizer.exponent ≤ 62)
    (inside : Bounds.int64.Contains
      (exactScaled mantissa quantizer.exponent * mantissaUnit)) :
    quantizer.actualWeight mantissa = quantizer.exactActual mantissa := by
  have scaled : scalePow2 mantissa quantizer.exponent =
      exactScaled mantissa quantizer.exponent :=
    (scalePow2_eq_floor fits usual).trans
      (Bounds.clamp_eq_self (keepsItsSign_of_contains inside).1)
  rw [actualWeight_eq_clamp_inUnits, scaled, inUnits, wrapSigned_of_contains inside,
    exactActual_eq_clamp]

/-- A multiple of a number beyond the range of delivered values is limited to an end of the range,
unless it is zero. -/
theorem clamp_eq_upper_mul_sign
    {value : Int}
    (coarse : 8589934592 ∣ value) :
    actualRange.clamp value = actualRange.upper * value.sign := by
  obtain ⟨count, rfl⟩ := coarse
  rw [Bounds.clamp, actualRange]
  dsimp only
  rcases lt_trichotomy (8589934592 * count) 0 with below | zero | above
  · rw [Int.sign_eq_neg_one_of_neg below, if_pos (by omega)]
    rfl
  · rw [zero]
    rfl
  · rw [Int.sign_eq_one_of_pos above, if_neg (by omega), if_pos (by omega)]
    rfl

section LargeExponents

variable (large : 27 ≤ quantizer.exponent)
include large

/-- Scaled by a large exponent, a mantissa keeps its sign in exact arithmetic. -/
theorem sign_exactScaled (mantissa : Int) :
    (exactScaled mantissa quantizer.exponent).sign = mantissa.sign := by
  obtain ⟨shift, same⟩ := Int.eq_ofNat_of_zero_le (by omega : 0 ≤ quantizer.exponent)
  have positive : (0 : Int) < 2 ^ shift := pow_pos two_pos shift
  rw [same, exactScaled_natCast, Int.sign_mul, Int.sign_eq_one_of_pos positive, Int.mul_one]

/-- A large exponent leaves the low bits of delivered values zero. -/
theorem dvd_exactScaled_mul_unit (mantissa : Int) :
    8589934592 ∣ exactScaled mantissa quantizer.exponent * mantissaUnit := by
  obtain ⟨rest, same⟩ := Int.eq_ofNat_of_zero_le (by omega : 0 ≤ quantizer.exponent - 27)
  have exponent : quantizer.exponent = (27 + rest : Nat) := by omega
  rw [exponent, exactScaled_natCast, mantissaUnit, pow_add]
  exact ⟨mantissa * 2 ^ rest, by ring⟩

/-- Delivered exactly, a mantissa scaled by a large exponent is an end of the range, or zero. -/
theorem exactActual_eq_upper_mul_sign (mantissa : Int) :
    quantizer.exactActual mantissa = actualRange.upper * mantissa.sign := by
  have positive : mantissaUnit.sign = 1 := rfl
  rw [exactActual_eq_clamp, clamp_eq_upper_mul_sign (dvd_exactScaled_mul_unit large mantissa),
    Int.sign_mul, positive, Int.mul_one, sign_exactScaled large]

/-- What is delivered for a scaled mantissa that is a word has the sign of what is left of it in the
unit of delivered values. -/
theorem actualWeight_eq_upper_mul_sign
    (fits : Bounds.int64.Contains mantissa)
    (usual : quantizer.exponent ≤ 62)
    (inside : Bounds.int64.Contains (exactScaled mantissa quantizer.exponent)) :
    quantizer.actualWeight mantissa =
      actualRange.upper * (inUnits (exactScaled mantissa quantizer.exponent)).sign := by
  have scaled : scalePow2 mantissa quantizer.exponent =
      exactScaled mantissa quantizer.exponent :=
    (scalePow2_eq_floor fits usual).trans (Bounds.clamp_eq_self inside)
  have coarse : 8589934592 ∣ inUnits (exactScaled mantissa quantizer.exponent) :=
    dvd_wrapSigned (by decide) (dvd_exactScaled_mul_unit large mantissa)
  rw [actualWeight_eq_clamp_inUnits, scaled, clamp_eq_upper_mul_sign coarse]

end LargeExponents

/-- Of an end of the words little or nothing is left in the unit of delivered values. -/
theorem actualWeight_of_end
    (atEnd : scalePow2 mantissa quantizer.exponent = Bounds.int64.lower ∨
      scalePow2 mantissa quantizer.exponent = Bounds.int64.upper) :
    quantizer.actualWeight mantissa = 0 ∨ quantizer.actualWeight mantissa = -mantissaUnit := by
  rw [actualWeight_eq_clamp_inUnits]
  rcases atEnd with lowest | highest
  · rw [lowest]
    exact .inl (by decide)
  · rw [highest]
    exact .inr (by decide)

/-- Zero is delivered for the mantissa zero. -/
theorem actualWeight_zero (quantizer : Quantizer) : quantizer.actualWeight 0 = 0 := by
  have scaled : scalePow2 0 quantizer.exponent = 0 := by
    unfold scalePow2
    split
    · rw [Int.zero_mul]
      rfl
    · exact Int.zero_shiftRight _
  rw [actualWeight_eq_clamp_inUnits, scaled]
  rfl

theorem exactScaled_zero (exponent : Int) : exactScaled 0 exponent = 0 := by
  rw [exactScaled, Int.cast_zero, zero_mul, Int.floor_zero]

theorem exactActual_zero (quantizer : Quantizer) : quantizer.exactActual 0 = 0 := by
  rw [exactActual_eq_clamp, exactScaled_zero]
  rfl

/-- A scaled mantissa that is no word, or is mirrored by the highest exponent, ends at an end of the
words. -/
theorem scalePow2_eq_end
    (fits : Bounds.int64.Contains mantissa)
    (supported : exponentRange.Contains quantizer.exponent)
    (nonzero : mantissa ≠ 0)
    (lost : ¬ (quantizer.exponent ≤ 62 ∧
      Bounds.int64.Contains (exactScaled mantissa quantizer.exponent))) :
    scalePow2 mantissa quantizer.exponent = Bounds.int64.lower ∨
      scalePow2 mantissa quantizer.exponent = Bounds.int64.upper := by
  by_cases usual : quantizer.exponent ≤ 62
  · rw [scalePow2_eq_floor fits usual]
    exact Bounds.clamp_eq_end fun inside => lost ⟨usual, inside⟩
  · have highest : quantizer.exponent = 63 := le_antisymm supported.2 (by omega)
    rw [highest, scalePow2_highest_eq_end nonzero]
    split
    · exact .inl rfl
    · exact .inr rfl

/-- With the highest exponent no sign is kept. -/
theorem not_keepsItsSign_highest (nonzero : mantissa ≠ 0) :
    ¬ KeepsItsSign (exactScaled mantissa 63) := by
  rintro ⟨inside, sameSign⟩
  rw [exactScaled_highest] at inside sameSign
  rw [Bounds.contains_int64_iff] at inside
  obtain rfl : mantissa = -1 := by omega
  exact absurd sameSign (by decide)

/-- Exactly delivered values are on the side of their mantissa. -/
theorem exactActual_sign (quantizer : Quantizer) (mantissa : Int) :
    (0 ≤ mantissa → 0 ≤ quantizer.exactActual mantissa) ∧
      (mantissa ≤ 0 → quantizer.exactActual mantissa ≤ 0) := by
  constructor
  · intro nonnegative
    exact quantizer.exactActual_zero ▸ quantizer.exactActual_le_exactActual nonnegative
  · intro nonpositive
    exact quantizer.exactActual_zero ▸ quantizer.exactActual_le_exactActual nonpositive

/-- A value that is delivered instead of the exact one: zero, one unit below zero, or the opposite of
the exact one. -/
def IsStray (quantizer : Quantizer) (mantissa : Int) : Prop :=
  quantizer.actualWeight mantissa = 0 ∨
    quantizer.actualWeight mantissa = -mantissaUnit ∨
    quantizer.actualWeight mantissa = -quantizer.exactActual mantissa

/-- The delivered value is exact if the sign of the scaled mantissa is kept, and else it is astray. -/
def MissesUnlessKept (quantizer : Quantizer) (mantissa : Int) : Prop :=
  KeepsItsSign (exactScaled mantissa quantizer.exponent) ∧
      quantizer.actualWeight mantissa = quantizer.exactActual mantissa ∨
    ¬ KeepsItsSign (exactScaled mantissa quantizer.exponent) ∧
      quantizer.actualWeight mantissa ≠ quantizer.exactActual mantissa ∧
      quantizer.IsStray mantissa

theorem missesUnlessKept_zero (quantizer : Quantizer) : quantizer.MissesUnlessKept 0 := by
  refine .inl ⟨?_, quantizer.actualWeight_zero.trans quantizer.exactActual_zero.symm⟩
  rw [exactScaled_zero]
  exact ⟨by decide, by decide⟩

section LargeExponents

variable
  (large : 27 ≤ quantizer.exponent)
  (fits : Bounds.int64.Contains mantissa)
  (nonzero : mantissa ≠ 0)
include large fits nonzero

/-- Where scaling is exact, the sign of what is left in the unit of delivered values decides. -/
theorem missesUnlessKept_of_contains
    (usual : quantizer.exponent ≤ 62)
    (inside : Bounds.int64.Contains (exactScaled mantissa quantizer.exponent)) :
    quantizer.MissesUnlessKept mantissa := by
  have upper : actualRange.upper = 2097088 := rfl
  have exactly := exactActual_eq_upper_mul_sign large mantissa
  have delivered := actualWeight_eq_upper_mul_sign large fits usual inside
  have sign := sign_exactScaled large mantissa
  by_cases same : (inUnits (exactScaled mantissa quantizer.exponent)).sign = mantissa.sign
  · exact .inl ⟨⟨inside, same.trans sign.symm⟩, by rw [delivered, same, exactly]⟩
  · have opposite : (inUnits (exactScaled mantissa quantizer.exponent)).sign = 0 ∨
        (inUnits (exactScaled mantissa quantizer.exponent)).sign = -mantissa.sign := by
      have own := Int.sign_eq_zero_iff_zero.not.mpr nonzero
      have sides := Int.sign_trichotomy mantissa
      have := Int.sign_trichotomy (inUnits (exactScaled mantissa quantizer.exponent))
      omega
    refine .inr ⟨fun keeps => same (keeps.2.trans sign), ?_, ?_⟩
    · rw [delivered, exactly, upper]
      omega
    · unfold IsStray
      rw [delivered, exactly]
      rcases opposite with nothing | mirrored
      · exact .inl (by rw [nothing, Int.mul_zero])
      · exact .inr (.inr (by rw [mirrored, Int.mul_neg]))

/-- Where scaling ends at an end of the words, the delivered value is not exact. -/
theorem missesUnlessKept_of_end
    (supported : exponentRange.Contains quantizer.exponent)
    (lost : ¬ (quantizer.exponent ≤ 62 ∧
      Bounds.int64.Contains (exactScaled mantissa quantizer.exponent))) :
    quantizer.MissesUnlessKept mantissa := by
  have upper : actualRange.upper = 2097088 := rfl
  have unit : mantissaUnit = 64 := rfl
  have exactly := exactActual_eq_upper_mul_sign large mantissa
  have delivered := actualWeight_of_end (scalePow2_eq_end fits supported nonzero lost)
  refine .inr ⟨?_, ?_, delivered.imp_right .inl⟩
  · intro keeps
    -- Either the scaled mantissa is no word, or the factor has the wrong sign.
    by_cases usual : quantizer.exponent ≤ 62
    · exact lost ⟨usual, keeps.1⟩
    · have highest : quantizer.exponent = 63 := le_antisymm supported.2 (by omega)
      rw [highest] at keeps
      exact not_keepsItsSign_highest nonzero keeps
  · have := Int.sign_eq_zero_iff_zero.not.mpr nonzero
    rw [exactly, upper]
    omega

end LargeExponents

/-- Every mantissa is delivered exactly or as a stray value, depending on its sign. -/
theorem missesUnlessKept
    (inWord : Bounds.int32.Contains mantissa)
    (supported : exponentRange.Contains quantizer.exponent) :
    quantizer.MissesUnlessKept mantissa := by
  have fits := Bounds.contains_int64_of_int32 inWord
  -- Up to 26 no bit of a mantissa is lost.  From 27 on all values are so coarse that they end at an
  -- end of the range, or at zero, and only their signs matter.
  by_cases small : quantizer.exponent ≤ 26
  · have inside := contains_exactScaled_mul_unit (hasWidth_of_int32 inWord)
      (by omega : quantizer.exponent + (31 : Nat) ≤ 57)
    exact .inl ⟨keepsItsSign_of_contains inside,
      actualWeight_eq_of_contains fits (by omega) inside⟩
  · by_cases zero : mantissa = 0
    · exact zero ▸ quantizer.missesUnlessKept_zero
    · by_cases kept : quantizer.exponent ≤ 62 ∧
          Bounds.int64.Contains (exactScaled mantissa quantizer.exponent)
      · exact missesUnlessKept_of_contains (by omega) fits zero kept.1 kept.2
      · exact missesUnlessKept_of_end (by omega) fits zero supported kept

/-- A power of two that is scaled to more than 57 bits leaves nothing in the unit of delivered
values. -/
theorem not_keepsItsSign_of_large
    {exponent : Int}
    {width : Nat}
    (large : 58 ≤ exponent + width)
    (nonnegative : 0 ≤ exponent) :
    ¬ KeepsItsSign (exactScaled (-2 ^ width) exponent) := by
  obtain ⟨shift, rfl⟩ := Int.eq_ofNat_of_zero_le nonnegative
  obtain ⟨rest, same⟩ := Nat.exists_eq_add_of_le (by omega : 58 ≤ width + shift)
  have scaled : exactScaled (-2 ^ width) shift = -288230376151711744 * 2 ^ rest := by
    rw [exactScaled_natCast, neg_mul, ← pow_add, same, pow_add]
    ring
  have whole : exactScaled (-2 ^ width) shift * mantissaUnit =
      ((1 <<< 64 : Nat) : Int) * -2 ^ rest := by
    have size : ((1 <<< 64 : Nat) : Int) = 18446744073709551616 := rfl
    rw [scaled, size, mantissaUnit]
    ring
  have positive : (0 : Int) < 2 ^ rest := pow_pos two_pos rest
  rintro ⟨-, sameSign⟩
  rw [inUnits, whole, wrapSigned, Int.mul_bmod_right, scaled, Int.sign_mul,
    Int.sign_eq_one_of_pos positive] at sameSign
  exact absurd sameSign (by decide)

/-- What is delivered for a mantissa. -/
structure Delivers (quantizer : Quantizer) (mantissa : Int) : Prop where
  answered : quantizer.actualWeight? mantissa = some (quantizer.actualWeight mantissa)
  exact_iff : quantizer.actualWeight mantissa = quantizer.exactActual mantissa ↔
    KeepsItsSign (exactScaled mantissa quantizer.exponent)
  missed : quantizer.actualWeight mantissa ≠ quantizer.exactActual mantissa →
    quantizer.IsStray mantissa
  sameSide : quantizer.actualWeight mantissa = quantizer.exactActual mantissa →
    (0 ≤ mantissa → 0 ≤ quantizer.actualWeight mantissa) ∧
      (mantissa ≤ 0 → quantizer.actualWeight mantissa ≤ 0)

theorem delivers
    (inWord : Bounds.int32.Contains mantissa)
    (supported : exponentRange.Contains quantizer.exponent) :
    quantizer.Delivers mantissa where
  answered := if_pos supported
  exact_iff := by
    rcases missesUnlessKept inWord supported with ⟨keeps, exactly⟩ | ⟨lost, inexact, -⟩
    · exact iff_of_true exactly keeps
    · exact iff_of_false inexact lost
  missed := by
    intro inexact
    rcases missesUnlessKept inWord supported with ⟨-, exactly⟩ | ⟨-, -, stray⟩
    · exact absurd exactly inexact
    · exact stray
  sameSide := by
    intro exactly
    exact exactly ▸ quantizer.exactActual_sign mantissa

/-- All mantissas of some width are delivered exactly. -/
def DeliversWidth (quantizer : Quantizer) (width : Nat) : Prop :=
  ∀ mantissa, HasWidth width mantissa →
    quantizer.actualWeight mantissa = quantizer.exactActual mantissa

/-- A width is delivered exactly if all its mantissas are scaled to at most 57 bits. -/
theorem deliversWidth_iff
    {width : Nat}
    (short : width ≤ 31)
    (supported : exponentRange.Contains quantizer.exponent) :
    quantizer.DeliversWidth width ↔ quantizer.exponent + width ≤ 57 := by
  have power : (2 : Int) ^ width ≤ 2 ^ 31 := pow_le_pow_right₀ one_le_two short
  have inWord : ∀ mantissa, HasWidth width mantissa → Bounds.int32.Contains mantissa := by
    rintro mantissa ⟨lower, upper⟩
    rw [Bounds.contains_int32_iff]
    omega
  constructor
  · intro exactly
    by_contra large
    -- Of the least mantissa of this width nothing is left.
    have lowest : HasWidth width (-2 ^ width) :=
      ⟨le_refl _, (neg_lt_zero.mpr (pow_pos two_pos width)).trans (pow_pos two_pos width)⟩
    exact not_keepsItsSign_of_large (by omega) (by omega)
      ((delivers (inWord _ lowest) supported).exact_iff.mp (exactly _ lowest))
  · intro small mantissa hasWidth
    refine (delivers (inWord _ hasWidth) supported).exact_iff.mpr ?_
    exact keepsItsSign_of_contains (contains_exactScaled_mul_unit hasWidth small)

/-- Scaling a word is exact, up to the ends of the words, for all exponents but the highest one.  The
value delivered for a mantissa is exact, up to the ends of the range, as long as the sign of the
scaled mantissa is kept; this holds for all mantissas of some width exactly if the exponent leaves
them within 57 bits. -/
theorem scaling_is_exact_while_signs_are_kept
    (supported : exponentRange.Contains quantizer.exponent) :
    (∀ value, Bounds.int64.Contains value → Scales value quantizer.exponent) ∧
      (∀ mantissa, Bounds.int32.Contains mantissa → quantizer.Delivers mantissa) ∧
      ∀ width ≤ 31, quantizer.DeliversWidth width ↔ quantizer.exponent + width ≤ 57 :=
  ⟨fun _ fits => scales fits supported, fun _ inWord => delivers inWord supported,
    fun _ short => deliversWidth_iff short supported⟩

/-- With the exponent 57 the mantissa `-1` is delivered exactly, and `1` is not. -/
theorem scaling_is_exact_while_signs_are_kept_below_zero :
    exponentRange.Contains 57 ∧
      (Bounds.int64.Contains 9223372036854775807 ∧ Scales 9223372036854775807 57) ∧
      (Bounds.int32.Contains (-1) ∧ Delivers ⟨.mixed, 6, 57⟩ (-1)) ∧
      (Bounds.int32.Contains 1 ∧ Delivers ⟨.mixed, 6, 57⟩ 1) ∧
      0 ≤ 31 ∧ DeliversWidth ⟨.mixed, 6, 57⟩ 0 := by
  have supported : exponentRange.Contains 57 := by decide
  obtain ⟨scales, delivers, widths⟩ :=
    @scaling_is_exact_while_signs_are_kept ⟨.mixed, 6, 57⟩ supported
  exact ⟨supported, ⟨by decide, scales _ (by decide)⟩, ⟨by decide, delivers _ (by decide)⟩,
    ⟨by decide, delivers _ (by decide)⟩, by decide, (widths 0 (by decide)).mpr (by decide)⟩

/-- With the exponent 57 the least positive mantissa is delivered as the lower end of the range, and
with the exponent 63 the least positive value is scaled to the lowest word. -/
theorem large_exponents_turn_signs :
    (exponentRange.Contains 57 ∧ Bounds.int32.Contains 1 ∧
      actualWeight ⟨.excitatory, 8, 57⟩ 1 = -2097088 ∧
      exactActual ⟨.excitatory, 8, 57⟩ 1 = 2097088) ∧
    exponentRange.Contains 63 ∧ Bounds.int64.Contains 1 ∧
      scalePow2 1 63 = -9223372036854775808 ∧
      Bounds.int64.clamp (exactScaled 1 63) = 9223372036854775807 := by
  refine ⟨⟨by decide, by decide, by decide, ?_⟩, by decide, by decide, by decide, ?_⟩
  · rw [exactActual_eq_clamp]
    exact congrArg (fun scaled => actualRange.clamp (scaled * mantissaUnit))
      (exactScaled_natCast 1 57)
  · rw [exactScaled_highest]
    rfl

end Quantizer

end Neurochip
