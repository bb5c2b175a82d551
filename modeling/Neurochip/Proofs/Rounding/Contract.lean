import Neurochip.Proofs.Failure.Rounding
import Neurochip.Proofs.Random.Below
import Neurochip.Proofs.Random.Fixed
import Neurochip.Proofs.Rounding.Quotients

namespace Neurochip

/-!
# What rounding promises of a quotient

All modes of rounding keep one contract.  The main statement says that rounding
a word by a positive denominator never fails, not even at the two ends of the
words, that it answers an integer next to the exact quotient, and which one if
the mode is not stochastic, and that it draws only where it has to.
-/

/-- An integer next to a number is the number itself only if the number is an integer. -/
theorem IsNextTo.eq_intCast_iff
    {integer : Int}
    {number : ℚ}
    (nextTo : IsNextTo integer number) :
    (integer : ℚ) = number ↔ ∃ whole : Int, (whole : ℚ) = number := by
  constructor
  · exact fun same => ⟨integer, same⟩
  · rintro ⟨whole, rfl⟩
    rw [IsNextTo, Int.floor_intCast, Int.ceil_intCast, or_self] at nextTo
    rw [nextTo]

/-- A quotient is an integer exactly if the denominator divides. -/
theorem exists_intCast_eq_div_iff
    (numerator : Int)
    {denominator : Nat}
    (positive : 0 < denominator) :
    (∃ whole : Int, (whole : ℚ) = numerator / denominator) ↔ (denominator : Int) ∣ numerator := by
  have nonzero : (denominator : ℚ) ≠ 0 := by exact_mod_cast Nat.ne_of_gt positive
  simp only [eq_div_iff nonzero]
  norm_cast
  exact ⟨fun ⟨whole, same⟩ => ⟨whole, by rw [← same, mul_comm]⟩,
    fun ⟨whole, same⟩ => ⟨whole, by rw [same, mul_comm]⟩⟩

namespace RoundingMode

/-- What a mode of rounding promises of a quotient, whatever the generator. -/
structure Rounds
    (mode : RoundingMode)
    (numerator : Int)
    (denominator : Nat)
    (generator : Generator) :
    Prop where
  /-- All that is computed on the way is a word. -/
  neverFails : (mode.quotientGuarded numerator denominator).run generator =
    .ok ((mode.quotient numerator denominator).run generator)
  fits : Bounds.int64.Contains ((mode.quotient numerator denominator).run generator).1
  nextTo : IsNextTo ((mode.quotient numerator denominator).run generator).1
    (numerator / denominator)
  exact_iff : (((mode.quotient numerator denominator).run generator).1 : ℚ) =
    numerator / denominator ↔ (denominator : Int) ∣ numerator
  awayFromZero : mode = .awayFromZero →
    ∀ integer, IsNextTo integer (numerator / denominator) →
      |integer| ≤ |((mode.quotient numerator denominator).run generator).1|
  towardZero : mode = .towardZero →
    ∀ integer, IsNextTo integer (numerator / denominator) →
      |((mode.quotient numerator denominator).run generator).1| ≤ |integer|
  advances_iff : ((mode.quotient numerator denominator).run generator).2 ≠ generator ↔
    mode = .stochastic ∧ ¬ (denominator : Int) ∣ numerator
  ahead : ∃ words ≤ 256,
    Generator.IsAhead words ((mode.quotient numerator denominator).run generator).2 generator

variable {numerator : Int} {denominator : Nat}

/-- Only stochastic rounding draws, and only if the denominator does not divide. -/
theorem run_quotient_ne_iff
    (mode : RoundingMode)
    (numerator : Int)
    (denominator : Nat)
    (generator : Generator) :
    ((mode.quotient numerator denominator).run generator).2 ≠ generator ↔
      mode = .stochastic ∧ ¬ (denominator : Int) ∣ numerator := by
  by_cases random : mode = .stochastic
  · subst random
    rw [quotient, Int.dvd_iff_emod_eq_zero]
    split
    · simp [*]
    · simpa [*] using Draw.run_below_ne denominator generator
  · have still := (wordless_quotient random numerator denominator).run_snd generator
    simp [still, random]

/-- Rounding takes as many words as one draw, or none. -/
theorem isAhead_run_quotient
    (mode : RoundingMode)
    (numerator : Int)
    (denominator : Nat)
    (generator : Generator) :
    ∃ words ≤ 256,
      Generator.IsAhead words ((mode.quotient numerator denominator).run generator).2
        generator := by
  cases mode with
  | stochastic =>
      rw [quotient]
      split
      · exact ⟨0, by omega, Generator.isAhead_zero generator⟩
      · obtain ⟨words, _, few, ahead⟩ := Draw.isAhead_below denominator generator
        exact ⟨words, few, ahead⟩
  | awayFromZero => exact ⟨0, by omega, Generator.isAhead_zero generator⟩
  | towardZero => exact ⟨0, by omega, Generator.isAhead_zero generator⟩

/-- Rounding a word by a positive denominator keeps the contract. -/
theorem quotient_keeps_contract
    (mode : RoundingMode)
    (fits : Bounds.int64.Contains numerator)
    (positive : 0 < denominator)
    (generator : Generator) :
    mode.Rounds numerator denominator generator := by
  have nextTo := mode.isNextTo_run_quotient numerator positive generator
  refine
    { neverFails := mode.agrees_quotient fits positive generator
      fits := mode.contains_run_quotient fits positive generator
      nextTo := nextTo
      exact_iff := nextTo.eq_intCast_iff.trans (exists_intCast_eq_div_iff numerator positive)
      awayFromZero := ?_
      towardZero := ?_
      advances_iff := mode.run_quotient_ne_iff numerator denominator generator
      ahead := mode.isAhead_run_quotient numerator denominator generator }
  · rintro rfl integer other
    have enlarges : ((RoundingMode.awayFromZero.quotient numerator denominator).run generator).1 =
        enlarged (numerator / denominator) :=
      quotientAway_eq_enlarged numerator denominator
    rw [enlarges]
    exact other.abs_between.2
  · rintro rfl integer other
    have truncates : ((RoundingMode.towardZero.quotient numerator denominator).run generator).1 =
        truncated (numerator / denominator) :=
      quotientToward_eq_truncated numerator denominator
    rw [truncates]
    exact other.abs_between.1

/-- A third of the lowest word is no integer, and half of it is one. -/
theorem quotient_keeps_contract_at_the_lowest_word :
    Bounds.int64.Contains (-9223372036854775808) ∧ 0 < 3 ∧ 0 < 2 ∧
      Rounds .stochastic (-9223372036854775808) 3 (.ofSeed 0) ∧
      Rounds .awayFromZero (-9223372036854775808) 2 (.ofSeed 0) :=
  ⟨by decide, by decide, by decide,
    quotient_keeps_contract .stochastic (by decide) (by decide) _,
    quotient_keeps_contract .awayFromZero (by decide) (by decide) _⟩

end RoundingMode

end Neurochip
