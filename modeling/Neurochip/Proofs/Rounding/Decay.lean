import Neurochip.Proofs.Rounding.Quotients

namespace Neurochip

/-!
# What is left of a value that decays

A value loses a fraction of itself, and what is left is rarely an integer.  The
main statement says which integer next to the exact rest is answered.  Because it
is the loss that is rounded, rounding away from zero truncates the rest, and
rounding toward zero enlarges it.
-/

theorem floor_intCast_sub (whole : Int) (number : ℚ) :
    ⌊(whole : ℚ) - number⌋ = whole - ⌈number⌉ := by
  rw [sub_eq_add_neg, Int.floor_intCast_add, Int.floor_neg, Int.sub_eq_add_neg]

theorem ceil_intCast_sub (whole : Int) (number : ℚ) :
    ⌈(whole : ℚ) - number⌉ = whole - ⌊number⌋ := by
  rw [sub_eq_add_neg, Int.ceil_intCast_add, Int.ceil_neg, Int.sub_eq_add_neg]

namespace IsNextTo

variable {integer : Int} {number : ℚ}

/-- What an integer next to a number leaves of a whole is next to what the number leaves. -/
theorem sub_left (nextTo : IsNextTo integer number) (whole : Int) :
    IsNextTo (whole - integer) (whole - number) := by
  unfold IsNextTo
  rw [floor_intCast_sub, ceil_intCast_sub]
  rcases nextTo with rfl | rfl
  · exact .inr rfl
  · exact .inl rfl

/-- An integer next to a number is within the integers around it. -/
theorem between
    (nextTo : IsNextTo integer number)
    (low high : Int)
    (above : low ≤ number)
    (below : number ≤ high) :
    low ≤ integer ∧ integer ≤ high := by
  have ordered : ⌊number⌋ ≤ ⌈number⌉ := Int.floor_le_ceil number
  have atLeast : low ≤ ⌊number⌋ := Int.le_floor.mpr above
  have atMost : ⌈number⌉ ≤ high := Int.ceil_le.mpr below
  rcases nextTo with rfl | rfl <;> omega

end IsNextTo

/-- A part of an integer: a number between zero and it, on either side of zero. -/
def IsPartOf (number : ℚ) (whole : Int) : Prop :=
  (0 ≤ number ∧ number ≤ whole) ∨ (whole ≤ number ∧ number ≤ 0)

namespace IsPartOf

variable {number : ℚ} {whole : Int}

/-- What a part leaves is truncated where the part is enlarged. -/
theorem truncated_sub (part : IsPartOf number whole) :
    truncated (whole - number) = whole - enlarged number := by
  rcases part with ⟨nonnegative, atMost⟩ | ⟨atLeast, nonpositive⟩
  · rw [truncated_of_nonneg (sub_nonneg.mpr atMost), enlarged_of_nonneg nonnegative,
      floor_intCast_sub]
  · rw [truncated_of_nonpos (sub_nonpos.mpr atLeast), enlarged_of_nonpos nonpositive,
      ceil_intCast_sub]

/-- What a part leaves is enlarged where the part is truncated. -/
theorem enlarged_sub (part : IsPartOf number whole) :
    enlarged (whole - number) = whole - truncated number := by
  rcases part with ⟨nonnegative, atMost⟩ | ⟨atLeast, nonpositive⟩
  · rw [enlarged_of_nonneg (sub_nonneg.mpr atMost), truncated_of_nonneg nonnegative,
      ceil_intCast_sub]
  · rw [enlarged_of_nonpos (sub_nonpos.mpr atLeast), truncated_of_nonpos nonpositive,
      floor_intCast_sub]

/-- What an integer next to a part leaves is again a part. -/
theorem sub_nextTo
    (part : IsPartOf number whole)
    {integer : Int}
    (nextTo : IsNextTo integer number) :
    IsPartOf ((whole - integer : Int) : ℚ) whole := by
  unfold IsPartOf
  norm_cast
  rcases part with ⟨nonnegative, atMost⟩ | ⟨atLeast, nonpositive⟩
  · have := nextTo.between 0 whole (by exact_mod_cast nonnegative) atMost
    omega
  · have := nextTo.between whole 0 atLeast (by exact_mod_cast nonpositive)
    omega

variable {small : Int}

theorem sign_eq (part : IsPartOf small whole) : small = 0 ∨ small.sign = whole.sign := by
  unfold IsPartOf at part
  norm_cast at part
  rcases lt_trichotomy small 0 with negative | zero | positive
  · rw [Int.sign_eq_neg_one_of_neg negative, Int.sign_eq_neg_one_of_neg (by omega)]
    exact .inr rfl
  · exact .inl zero
  · rw [Int.sign_eq_one_of_pos positive, Int.sign_eq_one_of_pos (by omega)]
    exact .inr rfl

theorem abs_le (part : IsPartOf small whole) : |small| ≤ |whole| := by
  unfold IsPartOf at part
  norm_cast at part
  rcases part with ⟨nonnegative, atMost⟩ | ⟨atLeast, nonpositive⟩
  · exact abs_le_abs_of_nonneg nonnegative atMost
  · exact abs_le_abs_of_nonpos nonpositive atLeast

end IsPartOf

namespace RoundingMode

/-- A step of decay that leaves a rest of a value.  The rest is known exactly, and every mode answers
an integer next to it, which has the sign of the value and is not larger. -/
structure Leaves (value : Int) (rest : ℚ) (step : RoundingMode → Draw Int) : Prop where
  nextTo : ∀ mode generator, IsNextTo ((step mode).run generator).1 rest
  sign : ∀ mode generator,
    ((step mode).run generator).1 = 0 ∨ ((step mode).run generator).1.sign = value.sign
  magnitude : ∀ mode generator, |((step mode).run generator).1| ≤ |value|
  awayFromZero : ∀ generator, ((step .awayFromZero).run generator).1 = truncated rest
  towardZero : ∀ generator, ((step .towardZero).run generator).1 = enlarged rest
  ordered : ∀ away random toward,
    |((step .awayFromZero).run away).1| ≤ |((step .stochastic).run random).1| ∧
      |((step .stochastic).run random).1| ≤ |((step .towardZero).run toward).1|

/-- What a value loses exactly. -/
def loss (value numerator : Int) (denominator : Nat) : ℚ :=
  (value * numerator : Int) / denominator

variable {value numerator : Int} {denominator : Nat}

/-- What a value loses is a part of it. -/
theorem isPartOf_loss
    (nonnegative : 0 ≤ numerator)
    (proper : numerator ≤ denominator)
    (positive : 0 < denominator) :
    IsPartOf (loss value numerator denominator) value := by
  have positiveRat : (0 : ℚ) < denominator := by exact_mod_cast positive
  unfold loss
  rcases le_total 0 value with rising | falling
  · refine .inl ⟨div_nonneg ?_ positiveRat.le, (div_le_iff₀ positiveRat).mpr ?_⟩
    · exact_mod_cast Int.mul_nonneg rising nonnegative
    · exact_mod_cast Int.mul_le_mul_of_nonneg_left proper rising
  · refine .inr ⟨(le_div_iff₀ positiveRat).mpr ?_, div_nonpos_of_nonpos_of_nonneg ?_ positiveRat.le⟩
    · exact_mod_cast Int.mul_le_mul_of_nonpos_left falling proper
    · exact_mod_cast Int.mul_nonpos_of_nonpos_of_nonneg falling nonnegative

/-- What a value of 32 bits loses is the rounded quotient, and nothing is cut off. -/
theorem run_decayByRatio_eq
    (mode : RoundingMode)
    (fits : Bounds.int32.Contains value)
    (nonnegative : 0 ≤ numerator)
    (proper : numerator ≤ denominator)
    (positive : 0 < denominator)
    (generator : Generator) :
    ((mode.decayByRatio value numerator denominator).run generator).1 =
      value - ((mode.quotient (value * numerator) denominator).run generator).1 := by
  have nextTo := mode.isNextTo_run_quotient (value * numerator) positive generator
  have part : IsPartOf (loss value numerator denominator) value :=
    isPartOf_loss nonnegative proper positive
  unfold decayByRatio
  split
  · rename_i held
    have nothing : value * numerator = 0 := by
      rcases held with absent | rfl | rfl
      · omega
      · exact Int.mul_zero value
      · exact Int.zero_mul numerator
    rw [nothing, Int.cast_zero, zero_div] at nextTo
    have unchanged := nextTo.between 0 0 (by simp) (by simp)
    rw [nothing]
    simp only [Draw.run_pure]
    omega
  · have kept := part.sub_nextTo nextTo
    unfold IsPartOf at kept
    norm_cast at kept
    obtain ⟨lower, upper⟩ : -2147483648 ≤ value ∧ value ≤ 2147483647 := fits
    simp only [Draw.run_bind, Draw.run_pure]
    refine Bounds.clamp_eq_self ?_
    show -2147483648 ≤ _ ∧ _ ≤ 2147483647
    omega

/-- The law of decay for all fractions. -/
theorem leaves_decayByRatio
    (fits : Bounds.int32.Contains value)
    (nonnegative : 0 ≤ numerator)
    (proper : numerator ≤ denominator)
    (positive : 0 < denominator) :
    Leaves value (value - loss value numerator denominator)
      (·.decayByRatio value numerator denominator) := by
  have part : IsPartOf (loss value numerator denominator) value :=
    isPartOf_loss nonnegative proper positive
  have lost := fun mode generator =>
    isNextTo_run_quotient mode (value * numerator) positive generator
  have left := fun mode generator =>
    run_decayByRatio_eq mode fits nonnegative proper positive generator
  have away : ∀ generator, ((awayFromZero.decayByRatio value numerator denominator).run
      generator).1 = truncated (value - loss value numerator denominator) := by
    intro generator
    rw [left, part.truncated_sub]
    exact congrArg (value - ·) (quotientAway_eq_enlarged _ _)
  have toward : ∀ generator, ((towardZero.decayByRatio value numerator denominator).run
      generator).1 = enlarged (value - loss value numerator denominator) := by
    intro generator
    rw [left, part.enlarged_sub]
    exact congrArg (value - ·) (quotientToward_eq_truncated _ _)
  have nextTo : ∀ mode generator, IsNextTo
      (((decayByRatio mode value numerator denominator).run generator).1)
      (value - loss value numerator denominator) := by
    intro mode generator
    rw [left]
    exact (lost mode generator).sub_left value
  have kept : ∀ mode generator, IsPartOf
      (((decayByRatio mode value numerator denominator).run generator).1 : Int) value := by
    intro mode generator
    rw [left]
    exact part.sub_nextTo (lost mode generator)
  exact
    { nextTo := nextTo
      sign := fun mode generator => (kept mode generator).sign_eq
      magnitude := fun mode generator => (kept mode generator).abs_le
      awayFromZero := away
      towardZero := toward
      ordered := fun first random second => by
        rw [away, toward]
        exact (nextTo .stochastic random).abs_between }

/-- What a value keeps exactly grows with the value. -/
theorem sub_loss_mono
    {small large : Int}
    (ordered : small ≤ large)
    (proper : numerator ≤ denominator)
    (positive : 0 < denominator) :
    small - loss small numerator denominator ≤ large - loss large numerator denominator := by
  have positiveRat : (0 : ℚ) < denominator := by exact_mod_cast positive
  have keptPart : (0 : ℚ) ≤ 1 - numerator / denominator := by
    rw [sub_nonneg, div_le_one positiveRat]
    exact_mod_cast proper
  have kept : ∀ value : Int,
      value - loss value numerator denominator = value * (1 - numerator / denominator) := by
    intro value
    unfold loss
    push_cast
    ring
  rw [kept, kept]
  exact mul_le_mul_of_nonneg_right (by exact_mod_cast ordered) keptPart

/-- Where nothing is drawn, decay keeps the order of two values, whatever their signs. -/
theorem run_decayByRatio_mono
    {mode : RoundingMode}
    (deterministic : mode ≠ .stochastic)
    {small large : Int}
    (ordered : small ≤ large)
    (smallFits : Bounds.int32.Contains small)
    (largeFits : Bounds.int32.Contains large)
    (nonnegative : 0 ≤ numerator)
    (proper : numerator ≤ denominator)
    (positive : 0 < denominator)
    (generator other : Generator) :
    ((mode.decayByRatio small numerator denominator).run generator).1 ≤
      ((mode.decayByRatio large numerator denominator).run other).1 := by
  have exactly := sub_loss_mono ordered proper positive
  have smallLeaves := leaves_decayByRatio smallFits nonnegative proper positive
  have largeLeaves := leaves_decayByRatio largeFits nonnegative proper positive
  cases mode with
  | stochastic => exact absurd rfl deterministic
  | awayFromZero =>
      rw [smallLeaves.awayFromZero, largeLeaves.awayFromZero]
      exact truncated_mono exactly
  | towardZero =>
      rw [smallLeaves.towardZero, largeLeaves.towardZero]
      exact enlarged_mono exactly

/-- A value of 32 bits decays to an integer next to the exact rest, with the sign of the value and no
larger, whatever the mode and the draws.  The same holds for a trace, which loses one part in `tau`
of itself, and is held if `tau` is zero. -/
theorem decay_leaves_rest :
    (∀ (value : Int) (constant : Nat), Bounds.int32.Contains value → constant ≤ 4096 →
      Leaves value (value * (4096 - constant) / 4096) (·.decay value constant)) ∧
    (∀ (value : Int) (tau : Nat), Bounds.int32.Contains value → 1 ≤ tau →
      Leaves value (value * ((tau - 1) / tau)) (·.decayByRatio value 1 tau)) ∧
    (∀ (mode : RoundingMode) (value : Int) (generator : Generator),
      (mode.decayByRatio value 1 0).run generator = (value, generator)) := by
  refine ⟨?_, ?_, ?_⟩
  · intro value constant fits small
    have rest : (value * (4096 - constant) / 4096 : ℚ) = value - loss value constant 4096 := by
      unfold loss
      push_cast
      ring
    rw [rest]
    exact leaves_decayByRatio fits (Int.natCast_nonneg constant) (by exact_mod_cast small) (by omega)
  · intro value tau fits positive
    have nonzero : (tau : ℚ) ≠ 0 := by exact_mod_cast Nat.ne_of_gt positive
    have rest : (value * ((tau - 1) / tau) : ℚ) = value - loss value 1 tau := by
      unfold loss
      field_simp
      push_cast
      ring
    rw [rest]
    exact leaves_decayByRatio fits (by omega) (by exact_mod_cast positive) positive
  · intro mode value generator
    rw [decayByRatio, if_pos (.inl rfl), Draw.run_pure]

/-- A quarter of `-7` and a third of `5` are no integers. -/
theorem decay_leaves_rest_between_integers :
    Bounds.int32.Contains (-7) ∧ 1024 ≤ 4096 ∧ Leaves (-7) (-21 / 4) (·.decay (-7) 1024) ∧
      Bounds.int32.Contains 5 ∧ 1 ≤ 3 ∧ Leaves 5 (10 / 3) (·.decayByRatio 5 1 3) := by
  refine ⟨by decide, by decide, ?_, by decide, by decide, ?_⟩
  · have leaves := decay_leaves_rest.1 (-7) 1024 (by decide) (by decide)
    convert leaves using 1
    norm_num
  · have leaves := decay_leaves_rest.2.1 5 3 (by decide) (by decide)
    convert leaves using 1
    norm_num

/-- What is left of `-7` is `-5.25`. -/
example (generator : Generator) :
    ((awayFromZero.decay (-7) 1024).run generator).1 = -5 ∧
      ((towardZero.decay (-7) 1024).run generator).1 = -6 :=
  ⟨rfl, rfl⟩

end RoundingMode

end Neurochip
