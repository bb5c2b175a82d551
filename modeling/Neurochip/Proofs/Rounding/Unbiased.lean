import Mathlib.Algebra.BigOperators.Expect
import Neurochip.Proofs.Random.Below
import Neurochip.Proofs.Rounding.Decay
import Neurochip.Trace

namespace Neurochip

/-!
# Stochastic rounding is unbiased

What stochastic rounding answers is a function of one number that is drawn below
the denominator.  The main statement says that the mean of this function over
all these numbers is the exact quotient, and that therefore decay and rounding to
multiples keep the exact value in the mean.
-/

open scoped BigOperators

/-- A computation that answers a function of one number drawn below a bound, and the mean of this
function over all numbers below the bound. -/
structure Draw.HasMean
    (draw : Draw Int)
    (bound : Nat)
    (value : Nat → Int)
    (mean : ℚ) :
    Prop where
  drawn : ∀ generator, (draw.run generator).1 = value ((below bound).run generator).1
  average : 𝔼 number ∈ Finset.range bound, (value number : ℚ) = mean

/-- Each trace decays by a draw of its own, after those of the channels before it. -/
theorem Traces.exists_run_decay
    (traces : Traces)
    (params : Channels TraceParams)
    (mode : RoundingMode)
    (channel : Channel)
    (generator : Generator) :
    ∃ before, ((traces.decay params mode).run generator).1.get channel =
      ((mode.decayByRatio (traces.get channel) 1 (params.get channel).tau).run before).1 := by
  cases channel <;> exact ⟨_, rfl⟩

namespace RoundingMode

variable {denominator : Nat}

/-- Where the denominator divides, every draw would give the quotient. -/
theorem run_quotient_stochastic
    (numerator : Int)
    (denominator : Nat)
    (generator : Generator) :
    ((stochastic.quotient numerator denominator).run generator).1 =
      quotientAt numerator denominator ((Draw.below denominator).run generator).1 := by
  rw [quotient]
  split
  · rename_i divisible
    rw [quotientAt, divisible, if_neg (by omega), Draw.run_pure]
  · rw [Draw.run_bind, Draw.run_pure]

/-- As many draws round up as the remainder says. -/
theorem sum_quotientAt
    (numerator : Int)
    (positive : 0 < denominator) :
    ∑ draw ∈ Finset.range denominator, quotientAt numerator denominator draw = numerator := by
  have nonnegative := Int.emod_nonneg numerator (b := denominator) (by omega)
  have below := Int.emod_lt_of_pos numerator (b := denominator) (by omega)
  have splits : ∀ draw : Nat, quotientAt numerator denominator draw =
      numerator / denominator + if (draw : Int) < numerator % denominator then 1 else 0 := by
    intro draw
    unfold quotientAt
    split <;> omega
  have roundedUp : (Finset.range denominator).filter
      (fun draw : Nat => (draw : Int) < numerator % denominator) =
        Finset.range (numerator % denominator).toNat := by
    ext draw
    simp only [Finset.mem_filter, Finset.mem_range]
    omega
  calc
    ∑ draw ∈ Finset.range denominator, quotientAt numerator denominator draw
      = denominator * (numerator / denominator) + (numerator % denominator).toNat := by
        simp only [splits, Finset.sum_add_distrib, Finset.sum_const, Finset.card_range,
          Finset.sum_boole, roundedUp, nsmul_eq_mul]
    _ = numerator := by
        rw [Int.toNat_of_nonneg nonnegative, Int.mul_ediv_add_emod]

theorem expect_quotientAt
    (numerator : Int)
    (positive : 0 < denominator) :
    𝔼 draw ∈ Finset.range denominator, (quotientAt numerator denominator draw : ℚ) =
      numerator / denominator := by
  rw [Finset.expect_eq_sum_div_card, ← Int.cast_sum, sum_quotientAt numerator positive,
    Finset.card_range]

/-- Decay loses the exact fraction in the mean. -/
theorem hasMean_decayByRatio
    {value numerator : Int}
    (fits : Bounds.int32.Contains value)
    (nonnegative : 0 ≤ numerator)
    (proper : numerator ≤ denominator)
    (positive : 0 < denominator) :
    (stochastic.decayByRatio value numerator denominator).HasMean denominator
      (fun draw => value - quotientAt (value * numerator) denominator draw)
      (value - loss value numerator denominator) := by
  have draws : (Finset.range denominator).Nonempty := Finset.nonempty_range_iff.mpr (by omega)
  constructor
  · intro generator
    rw [run_decayByRatio_eq stochastic fits nonnegative proper positive,
      run_quotient_stochastic]
  · simp only [Int.cast_sub, Finset.expect_sub_distrib, Finset.expect_const draws,
      expect_quotientAt _ positive]
    rfl

/-- Rounding to multiples keeps a value in the mean, unless a multiple next to it is no word. -/
theorem hasMean_roundToMultiple
    {value multiple : Int}
    (coarse : 2 ≤ multiple)
    (fits : ∀ neighbour, IsNextTo neighbour (value / multiple) →
      Bounds.int64.Contains (neighbour * multiple)) :
    (stochastic.roundToMultiple value multiple).HasMean multiple.toNat
      (fun draw => quotientAt value multiple.toNat draw * multiple) value := by
  have positive : 0 < multiple.toNat := by omega
  have same : (multiple.toNat : ℚ) = multiple := by
    exact_mod_cast Int.toNat_of_nonneg (by omega)
  have nonzero : (multiple : ℚ) ≠ 0 := by exact_mod_cast (by omega : multiple ≠ 0)
  constructor
  · intro generator
    have nextTo := stochastic.isNextTo_run_quotient value positive generator
    rw [same] at nextTo
    rw [roundToMultiple, if_neg (by omega), Draw.run_bind, Draw.run_pure,
      Bounds.clamp_eq_self (fits _ nextTo), run_quotient_stochastic]
  · simp only [Int.cast_mul, ← Finset.expect_mul, expect_quotientAt _ positive, same]
    exact div_mul_cancel₀ _ nonzero

/-- A draw below the denominator is uniform, and the mean of what stochastic rounding answers is the
exact quotient; a decay leaves the exact rest in the mean, for each of the traces too, and rounding to
multiples keeps the exact value. -/
theorem stochastic_rounding_is_unbiased :
    (∀ bound : Nat, 0 < bound → Bounds.int64.Contains bound → Draw.DrawsEvenly bound) ∧
    (∀ (numerator : Int) (denominator : Nat), 0 < denominator →
      ∑ draw ∈ Finset.range denominator, quotientAt numerator denominator draw = numerator ∧
        (stochastic.quotient numerator denominator).HasMean denominator
          (quotientAt numerator denominator) (numerator / denominator)) ∧
    (∀ (value : Int) (constant : Nat), Bounds.int32.Contains value → constant ≤ 4096 →
      (stochastic.decay value constant).HasMean 4096
        (fun draw => value - quotientAt (value * constant) 4096 draw)
        (value - value * constant / 4096)) ∧
    (∀ (value : Int) (tau : Nat), Bounds.int32.Contains value → 1 ≤ tau →
      (stochastic.decayByRatio value 1 tau).HasMean tau
        (fun draw => value - quotientAt value tau draw)
        (value - value / tau)) ∧
    (∀ (traces : Traces) (params : Channels TraceParams) (channel : Channel) (generator : Generator),
      ∃ before, ((traces.decay params .stochastic).run generator).1.get channel =
        ((stochastic.decayByRatio (traces.get channel) 1 (params.get channel).tau).run before).1) ∧
    (∀ value multiple : Int, 2 ≤ multiple →
      (∀ neighbour, IsNextTo neighbour (value / multiple) →
        Bounds.int64.Contains (neighbour * multiple)) →
      (stochastic.roundToMultiple value multiple).HasMean multiple.toNat
        (fun draw => quotientAt value multiple.toNat draw * multiple) value) := by
  refine ⟨?_, ?_, ?_, ?_, ?_, ?_⟩
  · intro bound positive fits
    have small : (bound : Int) ≤ 9223372036854775807 := fits.2
    exact Draw.drawsEvenly positive (by unfold Draw.doubleWordSize; omega)
  · exact fun numerator denominator positive =>
      ⟨sum_quotientAt numerator positive,
        run_quotient_stochastic numerator denominator, expect_quotientAt numerator positive⟩
  · intro value constant fits small
    have proper : (constant : Int) ≤ FixedPoint.decayScale := by exact_mod_cast small
    have mean := hasMean_decayByRatio fits (Int.natCast_nonneg constant) proper (by decide)
    have lost : loss value constant FixedPoint.decayScale = value * constant / 4096 := by
      simp [loss, FixedPoint.decayScale]
    rwa [lost] at mean
  · intro value tau fits positive
    have mean := hasMean_decayByRatio fits Int.one_nonneg (by exact_mod_cast positive) positive
    simpa [loss] using mean
  · exact fun traces params channel generator =>
      traces.exists_run_decay params .stochastic channel generator
  · exact fun value multiple coarse fits => hasMean_roundToMultiple coarse fits

/-- A quarter of `-7`, a decay of `-300` and of a trace of `100`, and `5` among the multiples of
`4`. -/
theorem stochastic_rounding_is_unbiased_between_integers :
    0 < 4 ∧ Bounds.int64.Contains 4 ∧ Draw.DrawsEvenly 4 ∧
      (stochastic.quotient (-7) 4).HasMean 4 (quotientAt (-7) 4) (-7 / 4) ∧
      Bounds.int32.Contains (-300) ∧ 41 ≤ 4096 ∧
      (stochastic.decay (-300) 41).HasMean 4096 (fun draw => -300 - quotientAt (-12300) 4096 draw)
        (-300 + 12300 / 4096) ∧
      Bounds.int32.Contains 100 ∧ 1 ≤ 3 ∧
      (stochastic.decayByRatio 100 1 3).HasMean 3 (fun draw => 100 - quotientAt 100 3 draw)
        (100 - 100 / 3) ∧
      2 ≤ 4 ∧ (∀ neighbour, IsNextTo neighbour (5 / 4) → Bounds.int64.Contains (neighbour * 4)) ∧
      (stochastic.roundToMultiple 5 4).HasMean 4 (fun draw => quotientAt 5 4 draw * 4) 5 := by
  obtain ⟨drawsEvenly, quotients, decays, traces, _, multiples⟩ := stochastic_rounding_is_unbiased
  have neighbours : ∀ neighbour, IsNextTo neighbour (5 / 4) →
      Bounds.int64.Contains (neighbour * 4) := by
    have below : ⌊(5 / 4 : ℚ)⌋ = 1 := by norm_num
    have above : ⌈(5 / 4 : ℚ)⌉ = 2 := by norm_num
    rintro neighbour (rfl | rfl)
    · rw [below]
      decide
    · rw [above]
      decide
  refine ⟨by decide, by decide, drawsEvenly 4 (by decide) (by decide), ?_, by decide, by decide, ?_,
    by decide, by decide, ?_, by decide, neighbours, ?_⟩
  · simpa using (quotients (-7) 4 (by decide)).2
  · have mean := decays (-300) 41 (by decide) (by decide)
    norm_num at mean ⊢
    exact mean
  · simpa using traces 100 3 (by decide) (by decide)
  · simpa using multiples 5 4 (by decide) (by simpa using neighbours)

end RoundingMode

end Neurochip
