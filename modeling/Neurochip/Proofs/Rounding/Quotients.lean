import Mathlib.Data.Rat.Floor
import Neurochip.Proofs.Rounding.Neighbours

namespace Neurochip

/-!
# Rounded quotients as integers next to a rational number

A rational number has an integer next to it on the side of zero, and one on the
side that is farther from zero.  The main statements say which of the two the
modes of rounding answer for an exact quotient: stochastic rounding any of them,
the other modes always the same one.
-/

/-- The integer next to a number, on the side of zero. -/
def truncated (number : ℚ) : Int :=
  if 0 ≤ number then ⌊number⌋ else ⌈number⌉

/-- The integer next to a number, on the side that is farther from zero. -/
def enlarged (number : ℚ) : Int :=
  if 0 ≤ number then ⌈number⌉ else ⌊number⌋

/-- An integer next to a number: the one below it, or the one above it. -/
def IsNextTo (integer : Int) (number : ℚ) : Prop :=
  integer = ⌊number⌋ ∨ integer = ⌈number⌉

theorem truncated_of_nonneg {number : ℚ} (nonnegative : 0 ≤ number) :
    truncated number = ⌊number⌋ :=
  if_pos nonnegative

theorem truncated_of_nonpos {number : ℚ} (nonpositive : number ≤ 0) :
    truncated number = ⌈number⌉ := by
  unfold truncated
  split
  · rw [le_antisymm nonpositive ‹0 ≤ number›, Int.floor_zero, Int.ceil_zero]
  · rfl

theorem enlarged_of_nonneg {number : ℚ} (nonnegative : 0 ≤ number) :
    enlarged number = ⌈number⌉ :=
  if_pos nonnegative

theorem enlarged_of_nonpos {number : ℚ} (nonpositive : number ≤ 0) :
    enlarged number = ⌊number⌋ := by
  unfold enlarged
  split
  · rw [le_antisymm nonpositive ‹0 ≤ number›, Int.floor_zero, Int.ceil_zero]
  · rfl

/-- Truncating keeps the order of two numbers, also if zero is between them. -/
theorem truncated_mono {small large : ℚ} (ordered : small ≤ large) :
    truncated small ≤ truncated large := by
  rcases le_total 0 small with nonnegative | nonpositive
  · rw [truncated_of_nonneg nonnegative, truncated_of_nonneg (nonnegative.trans ordered)]
    exact Int.floor_mono ordered
  · rw [truncated_of_nonpos nonpositive]
    rcases le_total 0 large with largeNonnegative | largeNonpositive
    · rw [truncated_of_nonneg largeNonnegative]
      have ceilNonpositive : ⌈small⌉ ≤ 0 := Int.ceil_le.mpr (by exact_mod_cast nonpositive)
      exact ceilNonpositive.trans (Int.floor_nonneg.mpr largeNonnegative)
    · rw [truncated_of_nonpos largeNonpositive]
      exact Int.ceil_mono ordered

/-- Enlarging keeps the order of two numbers, also if zero is between them. -/
theorem enlarged_mono {small large : ℚ} (ordered : small ≤ large) :
    enlarged small ≤ enlarged large := by
  rcases le_total 0 small with nonnegative | nonpositive
  · rw [enlarged_of_nonneg nonnegative, enlarged_of_nonneg (nonnegative.trans ordered)]
    exact Int.ceil_mono ordered
  · rw [enlarged_of_nonpos nonpositive]
    rcases le_total 0 large with largeNonnegative | largeNonpositive
    · rw [enlarged_of_nonneg largeNonnegative]
      exact (Int.floor_le_ceil small).trans (Int.ceil_mono ordered)
    · rw [enlarged_of_nonpos largeNonpositive]
      exact Int.floor_mono ordered

/-- An integer next to a number is at least as large as the one on the side of zero, and at most as
large as the one on the other side. -/
theorem IsNextTo.abs_between
    {integer : Int}
    {number : ℚ}
    (nextTo : IsNextTo integer number) :
    |truncated number| ≤ |integer| ∧ |integer| ≤ |enlarged number| := by
  have ordered : ⌊number⌋ ≤ ⌈number⌉ := Int.floor_le_ceil number
  rcases le_total 0 number with nonnegative | nonpositive
  · have floorNonnegative : 0 ≤ ⌊number⌋ := Int.floor_nonneg.mpr nonnegative
    rw [truncated_of_nonneg nonnegative, enlarged_of_nonneg nonnegative]
    rcases nextTo with rfl | rfl
    · exact ⟨le_rfl, abs_le_abs_of_nonneg floorNonnegative ordered⟩
    · exact ⟨abs_le_abs_of_nonneg floorNonnegative ordered, le_rfl⟩
  · have ceilNonpositive : ⌈number⌉ ≤ 0 := by
      rw [Int.ceil_le, Int.cast_zero]
      exact nonpositive
    rw [truncated_of_nonpos nonpositive, enlarged_of_nonpos nonpositive]
    rcases nextTo with rfl | rfl
    · exact ⟨abs_le_abs_of_nonpos ceilNonpositive ordered, le_rfl⟩
    · exact ⟨le_rfl, abs_le_abs_of_nonpos ceilNonpositive ordered⟩

namespace RoundingMode

variable {denominator : Nat}

/-- Every mode answers an integer next to the exact quotient. -/
theorem isNextTo_run_quotient
    (mode : RoundingMode)
    (numerator : Int)
    (positive : 0 < denominator)
    (generator : Generator) :
    IsNextTo ((mode.quotient numerator denominator).run generator).1
      (numerator / denominator) := by
  obtain ⟨above, below⟩ := mode.run_quotient_between numerator positive generator
  have adjacent := neg_neg_ediv numerator (Int.natCast_pos.mpr positive)
  unfold IsNextTo
  rw [Rat.floor_intCast_div_natCast, Rat.ceil_intCast_div_natCast]
  split at adjacent <;> omega

/-- The multiple to which a value is rounded is less than one multiple away. -/
theorem abs_run_quotient_mul_sub_lt
    (mode : RoundingMode)
    (value : Int)
    (positive : 0 < denominator)
    (generator : Generator) :
    |((mode.quotient value denominator).run generator).1 * denominator - value| <
      denominator := by
  have positiveInt : 0 < (denominator : Int) := Int.natCast_pos.mpr positive
  obtain ⟨above, below⟩ := mode.run_quotient_between value positive generator
  have atLeast := Int.mul_le_mul_of_nonneg_right above positiveInt.le
  have atMost := Int.mul_le_mul_of_nonneg_right below positiveInt.le
  have floor := Int.ediv_mul_add_emod value denominator
  have ceil := Int.ediv_mul_add_emod (-value) denominator
  have shortFloor := Int.emod_lt_of_pos value positiveInt
  have shortCeil := Int.emod_lt_of_pos (-value) positiveInt
  rw [Int.neg_mul] at atMost
  rw [abs_lt]
  omega

theorem quotientAway_eq_enlarged (numerator : Int) (denominator : Nat) :
    quotientAway numerator denominator = enlarged (numerator / denominator) := by
  unfold quotientAway
  split
  · rename_i negative
    rw [enlarged_of_nonpos, Rat.floor_intCast_div_natCast]
    exact div_nonpos_of_nonpos_of_nonneg (by exact_mod_cast negative.le) (by positivity)
  · rename_i nonnegative
    rw [enlarged_of_nonneg, Rat.ceil_intCast_div_natCast]
    exact div_nonneg (by exact_mod_cast not_lt.mp nonnegative) (by positivity)

theorem quotientToward_eq_truncated (numerator : Int) (denominator : Nat) :
    quotientToward numerator denominator = truncated (numerator / denominator) := by
  unfold quotientToward
  rcases le_total 0 numerator with nonnegative | nonpositive
  · rw [truncated_of_nonneg, Rat.floor_intCast_div_natCast,
      Int.tdiv_eq_ediv_of_nonneg nonnegative]
    exact div_nonneg (by exact_mod_cast nonnegative) (by positivity)
  · have mirrored : numerator.tdiv denominator = -(-numerator / (denominator : Int)) := by
      rw [← Int.tdiv_eq_ediv_of_nonneg (by omega), Int.neg_tdiv, Int.neg_neg]
    rw [truncated_of_nonpos, Rat.ceil_intCast_div_natCast, mirrored]
    exact div_nonpos_of_nonpos_of_nonneg (by exact_mod_cast nonpositive) (by positivity)

end RoundingMode

end Neurochip
