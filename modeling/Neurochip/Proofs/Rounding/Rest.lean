import Neurochip.Proofs.Random.Fixed
import Neurochip.Proofs.Rounding.Decay

namespace Neurochip

/-!
# Where repeated decay ends

A step of decay leaves a part of a value, so that repeated decay comes to rest:
each step either leaves the value as it is, or brings it closer to zero.  The main
statement says where.  Away from zero every loss counts, and nothing remains;
toward zero a value rests as soon as it would lose less than one.
-/

/-- Several steps, each from the result of the one before. -/
def Draw.iterate (step : α → Draw α) : Nat → α → Draw α
  | 0, value => pure value
  | calls + 1, value => do
      let value ← step value
      iterate step calls value

/-- The last of several steps starts from what the ones before it have left. -/
theorem Draw.run_iterate_succ
    (step : α → Draw α)
    (calls : Nat)
    (value : α)
    (generator : Generator) :
    (iterate step (calls + 1) value).run generator =
      (step ((iterate step calls value).run generator).1).run
        ((iterate step calls value).run generator).2 := by
  induction calls generalizing value generator with
  | zero => rfl
  | succ calls inductionHypothesis =>
      rw [iterate, Draw.run_bind, inductionHypothesis]
      rfl

/-- A value that a step leaves as it is stays as it is. -/
theorem Draw.iterate_of_rests
    {step : α → Draw α}
    {value : α}
    (rests : step value = pure value)
    (calls : Nat) :
    iterate step calls value = pure value := by
  induction calls with
  | zero => rfl
  | succ calls inductionHypothesis =>
      rw [iterate, rests]
      exact inductionHypothesis

namespace IsPartOf

variable {small middle whole : Int}

/-- A part of an integer is the integer itself, or closer to zero. -/
theorem eq_or_natAbs_lt (part : IsPartOf small whole) :
    small = whole ∨ small.natAbs < whole.natAbs := by
  unfold IsPartOf at part
  norm_cast at part
  omega

theorem refl (whole : Int) : IsPartOf whole whole := by
  unfold IsPartOf
  norm_cast
  omega

theorem trans (first : IsPartOf small middle) (second : IsPartOf middle whole) :
    IsPartOf small whole := by
  unfold IsPartOf at *
  norm_cast at *
  omega

/-- A part of a word is a word. -/
theorem contains_int32
    (part : IsPartOf small whole)
    (fits : Bounds.int32.Contains whole) :
    Bounds.int32.Contains small := by
  unfold IsPartOf at part
  norm_cast at part
  obtain ⟨lower, upper⟩ : -2147483648 ≤ whole ∧ whole ≤ 2147483647 := fits
  show -2147483648 ≤ small ∧ small ≤ 2147483647
  omega

end IsPartOf

/-- Steps that take no words and leave parts of the values that they start from come to rest within
as many calls as the first value is away from zero. -/
theorem Draw.exists_rest
    {step : Int → Draw Int}
    (wordless : ∀ value, Wordless (step value))
    (leavesPart : ∀ value, Bounds.int32.Contains value → ∀ generator,
      IsPartOf ((step value).run generator).1 value)
    {value : Int}
    (fits : Bounds.int32.Contains value) :
    ∃ rest : Int, IsPartOf rest value ∧ step rest = pure rest ∧
      ∀ calls, value.natAbs ≤ calls → iterate step calls value = pure rest := by
  induction distance : value.natAbs using Nat.strong_induction_on generalizing value with
  | _ distance inductionHypothesis =>
      obtain ⟨next, steps⟩ := wordless value
      have part : IsPartOf next value := by
        have left := leavesPart value fits (.ofSeed 0)
        rwa [steps] at left
      rcases part.eq_or_natAbs_lt with rfl | closer
      · exact ⟨next, .refl next, steps, fun calls _ => iterate_of_rests steps calls⟩
      · obtain ⟨rest, partOfNext, rests, reached⟩ :=
          inductionHypothesis next.natAbs (by omega) (part.contains_int32 fits) rfl
        refine ⟨rest, partOfNext.trans part, rests, fun calls enough => ?_⟩
        obtain ⟨later, rfl⟩ : ∃ later, calls = later + 1 :=
          ⟨calls - 1, by omega⟩
        rw [iterate, steps]
        exact reached later (by omega)

theorem enlarged_eq_zero_iff {number : ℚ} : enlarged number = 0 ↔ number = 0 := by
  constructor
  · intro zero
    rcases le_total 0 number with nonnegative | nonpositive
    · rw [enlarged_of_nonneg nonnegative, Int.ceil_eq_zero_iff] at zero
      exact le_antisymm zero.2 nonnegative
    · rw [enlarged_of_nonpos nonpositive, Int.floor_eq_zero_iff] at zero
      exact le_antisymm nonpositive zero.1
  · rintro rfl
    rw [enlarged_of_nonneg le_rfl, Int.ceil_zero]

theorem truncated_eq_zero_iff {number : ℚ} : truncated number = 0 ↔ |number| < 1 := by
  rcases le_total 0 number with nonnegative | nonpositive
  · rw [truncated_of_nonneg nonnegative, Int.floor_eq_zero_iff, abs_of_nonneg nonnegative]
    exact ⟨fun inside => inside.2, fun small => ⟨nonnegative, small⟩⟩
  · rw [truncated_of_nonpos nonpositive, Int.ceil_eq_zero_iff, abs_of_nonpos nonpositive]
    exact ⟨fun inside => neg_lt.mpr inside.1, fun small => ⟨neg_lt.mp small, nonpositive⟩⟩

namespace RoundingMode

/-- Repeated steps bring a value to rest within as many calls as it is away from zero: at zero if
losses are rounded away from zero, and otherwise at a value that rests in the given sense. -/
structure ComesToRest
    (step : RoundingMode → Int → Draw Int)
    (Resting : Int → Prop)
    (value : Int) :
    Prop where
  empties : ∀ calls generator, value.natAbs ≤ calls →
    (Draw.iterate (step .awayFromZero) calls value).run generator = (0, generator)
  rests : ∃ rest : Int, (rest = 0 ∨ rest.sign = value.sign) ∧ Resting rest ∧
    ∀ calls generator, value.natAbs ≤ calls →
      (Draw.iterate (step .towardZero) calls value).run generator = (rest, generator)
  resting_iff : (∀ generator, ((step .towardZero value).run generator).1 = value) ↔ Resting value

variable {value numerator : Int} {denominator : Nat}

/-- Away from zero every loss counts. -/
theorem eq_zero_of_awayFromZero_rests
    (fits : Bounds.int32.Contains value)
    (loses : 1 ≤ numerator)
    (proper : numerator ≤ denominator)
    {generator : Generator}
    (rests : ((awayFromZero.decayByRatio value numerator denominator).run generator).1 = value) :
    value = 0 := by
  have nonzero : (denominator : ℚ) ≠ 0 := by exact_mod_cast (by omega : denominator ≠ 0)
  rw [run_decayByRatio_eq _ fits (by omega) proper (by omega)] at rests
  have lost : enlarged (loss value numerator denominator) = 0 := by
    have rounded : ((awayFromZero.quotient (value * numerator) denominator).run generator).1 =
        enlarged (loss value numerator denominator) :=
      quotientAway_eq_enlarged _ _
    omega
  rw [enlarged_eq_zero_iff, loss, div_eq_zero_iff, or_iff_left nonzero, Int.cast_eq_zero] at lost
  exact (Int.mul_eq_zero.mp lost).resolve_right (by omega)

/-- Toward zero a value rests exactly when it loses less than one. -/
theorem towardZero_rests_iff
    (fits : Bounds.int32.Contains value)
    (nonnegative : 0 ≤ numerator)
    (proper : numerator ≤ denominator)
    (positive : 0 < denominator)
    (generator : Generator) :
    ((towardZero.decayByRatio value numerator denominator).run generator).1 = value ↔
      value.natAbs * numerator < denominator := by
  have positiveRat : (0 : ℚ) < denominator := by exact_mod_cast positive
  have rounded : ((towardZero.quotient (value * numerator) denominator).run generator).1 =
      truncated (loss value numerator denominator) :=
    quotientToward_eq_truncated _ _
  rw [run_decayByRatio_eq _ fits nonnegative proper positive, rounded, sub_eq_self,
    truncated_eq_zero_iff, loss, abs_div, Nat.abs_cast, div_lt_one positiveRat, ← Int.cast_abs,
    abs_mul, abs_of_nonneg nonnegative, Int.abs_eq_natAbs]
  norm_cast

/-- Any fraction brings a value of 32 bits to rest. -/
theorem comesToRest_decayByRatio
    (fits : Bounds.int32.Contains value)
    (loses : 1 ≤ numerator)
    (proper : numerator ≤ denominator) :
    ComesToRest (fun mode value => mode.decayByRatio value numerator denominator)
      (fun value => value.natAbs * numerator < denominator) value := by
  have positive : 0 < denominator := by omega
  have wordless : ∀ mode : RoundingMode, mode ≠ .stochastic → ∀ value,
      Draw.Wordless (mode.decayByRatio value numerator denominator) :=
    fun mode deterministic value => wordless_decayByRatio deterministic value numerator denominator
  have leavesPart : ∀ (mode : RoundingMode) value, Bounds.int32.Contains value → ∀ generator,
      IsPartOf (((mode.decayByRatio value numerator denominator).run generator).1 : Int) value := by
    intro mode value fits generator
    rw [run_decayByRatio_eq mode fits (by omega) proper positive]
    exact (isPartOf_loss (by omega) proper positive).sub_nextTo
      (isNextTo_run_quotient mode _ positive generator)
  constructor
  case empties =>
    intro calls generator enough
    obtain ⟨rest, part, rests, reached⟩ :=
      Draw.exists_rest (wordless .awayFromZero (by decide)) (leavesPart .awayFromZero) fits
    have unchanged : ((awayFromZero.decayByRatio rest numerator denominator).run generator).1 =
        rest := by rw [rests, Draw.run_pure]
    have nothing : rest = 0 :=
      eq_zero_of_awayFromZero_rests (part.contains_int32 fits) loses proper unchanged
    rw [reached calls enough, nothing, Draw.run_pure]
  case rests =>
    obtain ⟨rest, part, rests, reached⟩ :=
      Draw.exists_rest (wordless .towardZero (by decide)) (leavesPart .towardZero) fits
    have unchanged : ((towardZero.decayByRatio rest numerator denominator).run (.ofSeed 0)).1 =
        rest := by rw [rests, Draw.run_pure]
    refine ⟨rest, part.sign_eq, ?_, fun calls generator enough => ?_⟩
    · exact (towardZero_rests_iff (part.contains_int32 fits) (by omega) proper positive _).mp
        unchanged
    · rw [reached calls enough, Draw.run_pure]
  case resting_iff =>
    have restsIff := towardZero_rests_iff fits (by omega) proper positive
    exact ⟨fun rests => (restsIff (.ofSeed 0)).mp (rests _),
      fun small generator => (restsIff generator).mpr small⟩

/-- Repeated decay of a value of 32 bits ends within as many calls as the value is away from zero: at
zero if losses are rounded away from zero, and otherwise at a value with the same sign that loses less
than one.  The same holds for a trace, which rests if it is smaller than its time constant. -/
theorem repeated_decay_comes_to_rest :
    (∀ (value : Int) (constant : Nat), Bounds.int32.Contains value →
      1 ≤ constant → constant ≤ 4096 →
      ComesToRest (fun mode value => mode.decay value constant)
        (fun value => value.natAbs * constant < 4096) value) ∧
    (∀ (value : Int) (tau : Nat), Bounds.int32.Contains value → 1 ≤ tau →
      ComesToRest (fun mode value => mode.decayByRatio value 1 tau)
        (fun value => value.natAbs < tau) value) := by
  constructor
  · intro value constant fits loses small
    have proper : (constant : Int) ≤ (4096 : Nat) := by exact_mod_cast small
    have comes := comesToRest_decayByRatio fits (by exact_mod_cast loses) proper
    exact_mod_cast comes
  · intro value tau fits positive
    have proper : (1 : Int) ≤ tau := by exact_mod_cast positive
    have comes := comesToRest_decayByRatio fits (by omega) proper
    simpa only [mul_one, Nat.cast_lt] using comes

/-- A voltage of `-300` that loses a hundredth, and a trace of `100` that fades within `20` steps. -/
theorem repeated_decay_comes_to_rest_near_zero :
    Bounds.int32.Contains (-300) ∧ 1 ≤ 41 ∧ 41 ≤ 4096 ∧
      ComesToRest (fun mode value => mode.decay value 41) (fun value => value.natAbs * 41 < 4096)
        (-300) ∧
      Bounds.int32.Contains 100 ∧ 1 ≤ 20 ∧
      ComesToRest (fun mode value => mode.decayByRatio value 1 20) (fun value => value.natAbs < 20)
        100 :=
  ⟨by decide, by decide, by decide,
    repeated_decay_comes_to_rest.1 (-300) 41 (by decide) (by decide) (by decide),
    by decide, by decide, repeated_decay_comes_to_rest.2 100 20 (by decide) (by decide)⟩

end RoundingMode

end Neurochip
