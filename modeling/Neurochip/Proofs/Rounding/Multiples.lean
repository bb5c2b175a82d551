import Neurochip.Proofs.Rounding.Unbiased

namespace Neurochip

/-!
# Rounding onto the multiples of a number

A value between two multiples is rounded to one of them.  The multiple that is
farther from zero may be no word of 64 bits, and then rounding ends at the last
word on the way there.  The main statement says that rounding never moves a value
by a whole multiple, and that it misses the multiples in exactly this case.
-/

/-- Clamping brings a number nearer to everything in the range. -/
theorem Bounds.abs_clamp_sub_le
    {bounds : Bounds}
    {inside : Int}
    (contains : bounds.Contains inside)
    (value : Int) :
    |bounds.clamp value - inside| ≤ |value - inside| := by
  obtain ⟨lower, upper⟩ := contains
  unfold Bounds.clamp
  split
  · rw [abs_of_nonpos (by omega), abs_of_nonpos (by omega)]
    omega
  · split
    · rw [abs_of_nonneg (by omega), abs_of_nonneg (by omega)]
      omega
    · exact le_refl _

section Multiples

variable {multiple target point value : Int}

/-- What is below a multiple that is less than one multiple away from a value is below the value. -/
theorem lt_of_dvd_of_lt_of_near
    (isMultiple : multiple ∣ target)
    (near : |target - value| < multiple)
    (divides : multiple ∣ point)
    (below : point < target) :
    point < value := by
  have apart := Int.le_of_dvd (by omega) (Int.dvd_sub isMultiple divides)
  have := abs_lt.mp near
  omega

/-- What is above a multiple that is less than one multiple away from a value is above the value. -/
theorem lt_of_dvd_of_near_of_lt
    (isMultiple : multiple ∣ target)
    (near : |target - value| < multiple)
    (divides : multiple ∣ point)
    (above : target < point) :
    value < point := by
  have apart := Int.le_of_dvd (by omega) (Int.dvd_sub divides isMultiple)
  have := abs_lt.mp near
  omega

/-- Clamped to the words, a multiple next to a word is a multiple only if it has been a word. -/
theorem Bounds.dvd_clamp_iff
    {bounds : Bounds}
    (isMultiple : multiple ∣ target)
    (contains : bounds.Contains value)
    (near : |target - value| < multiple) :
    multiple ∣ bounds.clamp target ↔ bounds.Contains target := by
  constructor
  · intro divides
    have inRange := bounds.contains_clamp target
    by_contra outside
    unfold Bounds.Contains at contains outside inRange
    rcases lt_trichotomy (bounds.clamp target) target with below | same | above
    · have := lt_of_dvd_of_lt_of_near isMultiple near divides below
      have : bounds.clamp target = bounds.upper := by
        unfold Bounds.clamp at below ⊢
        split at below <;> split <;> omega
      omega
    · omega
    · have := lt_of_dvd_of_near_of_lt isMultiple near divides above
      have : bounds.clamp target = bounds.lower := by
        unfold Bounds.clamp at above ⊢
        split at above <;> split <;> omega
      omega
  · intro inside
    rwa [Bounds.clamp_eq_self inside]

end Multiples

namespace RoundingMode

/-- All multiples that are words of 64 bits are below a value, or all of them are above it. -/
def IsBeyondMultiples (value multiple : Int) : Prop :=
  (∀ point, Bounds.int64.Contains point → multiple ∣ point → point < value) ∨
    (∀ point, Bounds.int64.Contains point → multiple ∣ point → value < point)

/-- Of the multiples next to a value, the one farther from zero is chosen: always, or by a draw that
falls below the remainder if the value is positive, and that does not if it is negative. -/
def RoundsOutward (mode : RoundingMode) (value multiple : Int) (draw : Nat) : Prop :=
  mode = awayFromZero ∨
    mode = stochastic ∧ (0 < value ↔ draw < value % multiple)

instance (mode : RoundingMode) (value multiple : Int) (draw : Nat) :
    Decidable (mode.RoundsOutward value multiple draw) :=
  inferInstanceAs (Decidable (_ ∨ _ ∧ (_ ↔ _)))

variable {mode : RoundingMode} {value : Int} {denominator : Nat}

/-- Of a value between two multiples, the quotient below leads below it and the next one above it. -/
theorem mul_between
    (positive : 0 < denominator)
    (between : ¬ (denominator : Int) ∣ value) :
    value / denominator * denominator < value ∧
      value < (value / denominator + 1) * denominator := by
  have positiveInt : 0 < (denominator : Int) := Int.natCast_pos.mpr positive
  have whole := Int.ediv_mul_add_emod value denominator
  have rest := Int.emod_pos_of_not_dvd between
  have short := Int.emod_lt_of_pos value positiveInt
  rw [Int.add_mul]
  omega

/-- A value between two multiples is rounded to the upper one if that is farther from zero and the
value is rounded outward, or if it is nearer to zero and the value is not. -/
theorem run_quotient_eq
    (mode : RoundingMode)
    (positive : 0 < denominator)
    (between : ¬ (denominator : Int) ∣ value)
    (generator : Generator) :
    ((mode.quotient value denominator).run generator).1 =
      if 0 < value ↔ mode.RoundsOutward value denominator ((Draw.below denominator).run generator).1
      then value / denominator + 1
      else value / denominator := by
  have positiveInt : 0 < (denominator : Int) := Int.natCast_pos.mpr positive
  have inexact : value % denominator ≠ 0 := fun exact => between (Int.dvd_of_emod_eq_zero exact)
  have nonzero : value ≠ 0 := by rintro rfl; exact between (Int.dvd_zero _)
  have above := neg_neg_ediv value positiveInt
  rw [if_neg inexact] at above
  unfold RoundsOutward
  cases mode with
  | stochastic =>
      rw [run_quotient_stochastic, quotientAt]
      by_cases up : (((Draw.below denominator).run generator).1 : Int) < value % denominator <;>
        by_cases right : 0 < value <;> simp [up, right]
  | awayFromZero =>
      show quotientAway value denominator = _
      unfold quotientAway
      by_cases right : 0 < value
      · have : ¬ value < 0 := by omega
        simp [right, this, above]
      · have : value < 0 := by omega
        simp [right, this]
  | towardZero =>
      show quotientToward value denominator = _
      rw [quotientToward, Int.tdiv_eq_ediv, Int.sign_eq_one_of_pos positiveInt]
      by_cases right : 0 < value
      · simp [right, right.le]
      · have : ¬ (0 ≤ value) := by omega
        simp [right, this, between]

/-- No word of 64 bits that is a multiple is beyond all multiples. -/
theorem not_isBeyondMultiples
    {multiple : Int}
    (fits : Bounds.int64.Contains value)
    (divides : multiple ∣ value) :
    ¬ IsBeyondMultiples value multiple := by
  rintro (above | below)
  · exact lt_irrefl _ (above value fits divides)
  · exact lt_irrefl _ (below value fits divides)

/-- The multiple to which a word is rounded is a word, unless the word is beyond all multiples and is
rounded outward. -/
theorem contains_run_quotient_mul_iff
    (mode : RoundingMode)
    (fits : Bounds.int64.Contains value)
    (positive : 0 < denominator)
    (generator : Generator) :
    Bounds.int64.Contains (((mode.quotient value denominator).run generator).1 * denominator) ↔
      ¬ (IsBeyondMultiples value denominator ∧
        mode.RoundsOutward value denominator ((Draw.below denominator).run generator).1) := by
  have near := mode.abs_run_quotient_mul_sub_lt value positive generator
  have isMultiple : (denominator : Int) ∣
      ((mode.quotient value denominator).run generator).1 * denominator := Int.dvd_mul_left _ _
  by_cases divides : (denominator : Int) ∣ value
  · have same : ((mode.quotient value denominator).run generator).1 * denominator = value :=
      Int.eq_of_sub_eq_zero (Int.eq_zero_of_abs_lt_dvd (Int.dvd_sub isMultiple divides) near)
    rw [same]
    exact iff_of_true fits fun ⟨beyond, _⟩ => not_isBeyondMultiples fits divides beyond
  · obtain ⟨below, above⟩ := mul_between positive divides
    have rounded := mode.run_quotient_eq positive divides generator
    have zero : Bounds.int64.Contains 0 := by decide
    constructor
    · -- Beyond all multiples, what is rounded outward would be a multiple on the other side.
      rintro inside ⟨beyond | beyond, outward⟩
      · have right := beyond 0 zero (Int.dvd_zero _)
        rw [if_pos (iff_of_true right outward)] at rounded
        have := beyond _ inside isMultiple
        rw [rounded] at this
        omega
      · have left := beyond 0 zero (Int.dvd_zero _)
        rw [if_neg (by simp [outward, left.le])] at rounded
        have := beyond _ inside isMultiple
        rw [rounded] at this
        omega
    · intro possible
      by_contra outside
      refine possible ?_
      rw [Bounds.Contains, not_and_or, not_le, not_le] at outside
      rcases outside with below | above
      · have beyond : ∀ point, Bounds.int64.Contains point → (denominator : Int) ∣ point →
            value < point := fun point inside pointDivides =>
          lt_of_dvd_of_near_of_lt isMultiple near pointDivides (lt_of_lt_of_le below inside.1)
        have left := beyond 0 zero (Int.dvd_zero _)
        refine ⟨.inr beyond, ?_⟩
        by_contra inward
        rw [if_pos (iff_of_false (not_lt.mpr left.le) inward)] at rounded
        rw [rounded] at below
        have := fits.1
        omega
      · have beyond : ∀ point, Bounds.int64.Contains point → (denominator : Int) ∣ point →
            point < value := fun point inside pointDivides =>
          lt_of_dvd_of_lt_of_near isMultiple near pointDivides (lt_of_le_of_lt inside.2 above)
        have right := beyond 0 zero (Int.dvd_zero _)
        refine ⟨.inl beyond, ?_⟩
        by_contra inward
        rw [if_neg (fun same => inward (same.mp right))] at rounded
        rw [rounded] at above
        have := fits.2
        omega

/-- Rounding onto multiples is rounding the quotient, and clamping the multiple to the words. -/
theorem run_roundToMultiple_eq_clamp
    (mode : RoundingMode)
    (fits : Bounds.int64.Contains value)
    (positive : 0 < denominator)
    (generator : Generator) :
    ((mode.roundToMultiple value denominator).run generator).1 =
      Bounds.int64.clamp
        (((mode.quotient value denominator).run generator).1 * denominator) := by
  unfold roundToMultiple
  split
  · obtain rfl : denominator = 1 := by omega
    have near := mode.abs_run_quotient_mul_sub_lt value positive generator
    have same : ((mode.quotient value 1).run generator).1 * (1 : Nat) = value :=
      Int.eq_of_sub_eq_zero (Int.abs_lt_one_iff.mp near)
    rw [same, Bounds.clamp_eq_self fits]
    rfl
  · rw [Draw.run_bind, Draw.run_pure, Int.toNat_natCast]

/-- Where rounding a value onto multiples ends, if it would draw the given number. -/
structure Lands
    (mode : RoundingMode)
    (value multiple : Int)
    (draw : Nat)
    (landed : Int) :
    Prop where
  near : |landed - value| < multiple
  onMultiple_iff : multiple ∣ landed ↔
    ¬ (IsBeyondMultiples value multiple ∧ mode.RoundsOutward value multiple draw)
  offMultiples : ¬ multiple ∣ landed →
    landed = if 0 < value then Bounds.int64.upper else Bounds.int64.lower

/-- A word is never rounded by a whole multiple or more.  It is rounded to a multiple, unless all
multiples that are words are on one side of it and it is rounded to the other side; then it is rounded
to the last word there. -/
theorem roundToMultiple_lands
    (mode : RoundingMode)
    {value multiple : Int}
    (fits : Bounds.int64.Contains value)
    (positive : 1 ≤ multiple)
    (generator : Generator) :
    mode.Lands value multiple ((Draw.below multiple.toNat).run generator).1
      ((mode.roundToMultiple value multiple).run generator).1 := by
  obtain ⟨denominator, rfl⟩ := Int.eq_ofNat_of_zero_le (by omega : 0 ≤ multiple)
  have positive : 0 < denominator := by omega
  have near := mode.abs_run_quotient_mul_sub_lt value positive generator
  have isMultiple : (denominator : Int) ∣
      ((mode.quotient value denominator).run generator).1 * denominator := Int.dvd_mul_left _ _
  have onMultiple := Bounds.dvd_clamp_iff isMultiple fits near
  rw [Int.toNat_natCast, mode.run_roundToMultiple_eq_clamp fits positive generator]
  refine
    { near := (Bounds.abs_clamp_sub_le fits _).trans_lt near
      onMultiple_iff := onMultiple.trans
        (mode.contains_run_quotient_mul_iff fits positive generator)
      offMultiples := fun missed => ?_ }
  have outside := mt onMultiple.mpr missed
  rw [Bounds.Contains, not_and_or, not_le, not_le] at outside
  rcases outside with below | above
  · have left := lt_of_dvd_of_near_of_lt isMultiple near (Int.dvd_zero _)
      (below.trans (by decide))
    rw [if_neg (not_lt.mpr left.le), Bounds.clamp, if_pos below]
  · have right := lt_of_dvd_of_lt_of_near isMultiple near (Int.dvd_zero _)
      (lt_trans (by decide) above)
    have notBelow := not_lt.mpr (Bounds.int64.ordered.trans above.le)
    rw [if_pos right, Bounds.clamp, if_neg notBelow, if_pos above]

/-- Rounded outward, the lowest word ends where it is, as the next multiple of three is no word. -/
theorem roundToMultiple_lands_at_the_lowest_word :
    Bounds.int64.Contains (-9223372036854775808) ∧ (1 : Int) ≤ 3 ∧
      Lands .awayFromZero (-9223372036854775808) 3 ((Draw.below 3).run (.ofSeed 0)).1
        (-9223372036854775808) :=
  ⟨by decide, by decide, roundToMultiple_lands .awayFromZero (by decide) (by decide) (.ofSeed 0)⟩

/-- The highest word is rounded away from zero to itself, which is odd. -/
theorem highest_word_misses_even_numbers :
    Bounds.int64.Contains 9223372036854775807 ∧
      ((awayFromZero.roundToMultiple 9223372036854775807 2).run (.ofSeed 0)).1 =
        9223372036854775807 ∧
      ¬ (2 : Int) ∣ 9223372036854775807 :=
  ⟨by decide, by decide, by decide⟩

end RoundingMode

end Neurochip
