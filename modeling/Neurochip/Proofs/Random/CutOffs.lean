import Neurochip.Random.Sample

namespace Neurochip.Draw

/-!
# Draws with and without a cut-off

Scaling refuses words, and a Poisson count takes factors, for as long as it has
to; the draws of this library stop after some number of rounds.  The relations
here are the loops without an end.  The main statements say that a draw agrees
with its loop until the cut-off is reached: it answers as the loop does if that
ends in time, and the loop does end in time unless all words are refused or the
count is as long as it can be.
-/

variable {next : Draw Nat} {size bound limit : Nat}

/-- The high half of a product with a word is below the other factor. -/
theorem mul_div_lt
    (positive : 0 < bound)
    {number : Nat}
    (small : number < size) :
    number * bound / size < bound := by
  rw [Nat.div_lt_iff_lt_mul (Nat.zero_lt_of_lt small), Nat.mul_comm bound]
  exact Nat.mul_lt_mul_of_pos_right small positive

/-- Scaled words are below the bound. -/
theorem run_scale_lt
    (positive : 0 < bound)
    (small : ∀ generator, (next.run generator).1 < size)
    (limit refusals : Nat)
    (generator : Generator) :
    ((scale next size bound limit refusals).run generator).1 < bound := by
  induction refusals generalizing generator with
  | zero => exact mul_div_lt positive (small generator)
  | succ refusals inductionHypothesis =>
      rw [scale, run_bind]
      dsimp only
      split
      · exact mul_div_lt positive (small generator)
      · exact inductionHypothesis _

/-- A loop without an end: the number of words it refuses, the generator it starts from, and the
answer with the generator that is left. -/
inductive Scales (next : Draw Nat) (size bound limit : Nat) :
    Nat → Generator → Nat × Generator → Prop where
  | accepts
      {generator : Generator}
      (accepted : (next.run generator).1 * bound % size ≤ limit) :
      Scales next size bound limit 0 generator
        ((next.run generator).1 * bound / size, (next.run generator).2)
  | refuses
      {refusals : Nat}
      {generator : Generator}
      {answer : Nat × Generator}
      (refused : ¬ (next.run generator).1 * bound % size ≤ limit)
      (others : Scales next size bound limit refusals (next.run generator).2 answer) :
      Scales next size bound limit (refusals + 1) generator answer

/-- Scaling answers as the loop without an end, if that refuses no more words. -/
theorem Scales.run_scale
    {refusals : Nat}
    {generator : Generator}
    {answer : Nat × Generator}
    (scales : Scales next size bound limit refusals generator answer)
    {most : Nat}
    (few : refusals ≤ most) :
    (scale next size bound limit most).run generator = answer := by
  induction scales generalizing most with
  | accepts accepted =>
      cases most with
      | zero => rfl
      | succ most =>
          rw [scale, run_bind]
          dsimp only
          rw [if_pos accepted]
          rfl
  | refuses refused _ inductionHypothesis =>
      obtain ⟨most, rfl⟩ := Nat.exists_eq_succ_of_ne_zero (Nat.ne_zero_of_lt few)
      rw [scale, run_bind]
      dsimp only
      rw [if_neg refused]
      exact inductionHypothesis (Nat.le_of_succ_le_succ few)

/-- A number of words that are refused one after the other. -/
def RefusesAll (next : Draw Nat) (size bound limit : Nat) : Nat → Generator → Prop
  | 0, _ => True
  | refusals + 1, generator =>
      ¬ (next.run generator).1 * bound % size ≤ limit ∧
        RefusesAll next size bound limit refusals (next.run generator).2

/-- The loop without an end comes to an end, as scaling does, unless all words up to the cut-off are
refused. -/
theorem exists_scales
    {most : Nat}
    {generator : Generator}
    (inTime : ¬ RefusesAll next size bound limit (most + 1) generator) :
    ∃ refusals ≤ most, Scales next size bound limit refusals generator
      ((scale next size bound limit most).run generator) := by
  induction most generalizing generator with
  | zero =>
      have accepted : (next.run generator).1 * bound % size ≤ limit :=
        Decidable.not_not.mp fun refused => inTime ⟨refused, trivial⟩
      exact ⟨0, Nat.le_refl 0, .accepts accepted⟩
  | succ most inductionHypothesis =>
      rw [scale, run_bind]
      dsimp only
      split
      · exact ⟨0, Nat.zero_le _, .accepts ‹_›⟩
      · rename_i refused
        obtain ⟨refusals, few, scales⟩ := inductionHypothesis fun others => inTime ⟨refused, others⟩
        exact ⟨refusals + 1, Nat.succ_le_succ few, .refuses refused scales⟩

/-- A draw below a bound is that of the loop without an end, unless it refuses as many words as it
can. -/
theorem exists_scales_below
    {bound : Nat}
    {generator : Generator}
    (inTime : ¬ RefusesAll (UInt64.toNat <$> doubleWord) doubleWordSize bound
      (shiftedLimit 64 bound) (maxRefusals + 1) generator) :
    ∃ refusals, Scales (UInt64.toNat <$> doubleWord) doubleWordSize bound
      (shiftedLimit 64 bound) refusals generator ((below bound).run generator) := by
  obtain ⟨refusals, _, scales⟩ := exists_scales inTime
  exact ⟨refusals, scales⟩

/-- A count without an end: the product and the factors so far, the generator that the next factor
comes from, and the count with the generator that is left. -/
inductive Counts (limit : Binary64) :
    Binary64 → Nat → Generator → Nat × Generator → Prop where
  | ends
      {product : Binary64}
      {count : Nat}
      {generator : Generator}
      (below : product.lt limit = true) :
      Counts limit product count generator (count, generator)
  | goesOn
      {product : Binary64}
      {count : Nat}
      {generator : Generator}
      {answer : Nat × Generator}
      (above : ¬ product.lt limit = true)
      (others : Counts limit (product.mul (fraction.run generator).1) (count + 1)
        (fraction.run generator).2 answer) :
      Counts limit product count generator answer

variable {ending product : Binary64} {count most : Nat} {generator : Generator}

/-- A count without an end is not below the factors so far. -/
theorem Counts.le
    {answer : Nat × Generator}
    (counts : Counts ending product count generator answer) :
    count ≤ answer.1 := by
  induction counts with
  | ends => exact Nat.le_refl _
  | goesOn _ _ inductionHypothesis => exact Nat.le_of_succ_le inductionHypothesis

/-- Factors are counted as without an end, if there are no more of them. -/
theorem Counts.run_countFactors
    {answer : Nat × Generator}
    (counts : Counts ending product count generator answer)
    (few : answer.1 ≤ count + most) :
    (countFactors ending product count most).run generator = answer := by
  induction counts generalizing most with
  | ends below =>
      cases most with
      | zero => rfl
      | succ most =>
          rw [countFactors, if_pos below]
          rfl
  | goesOn above others inductionHypothesis =>
      cases most with
      | zero => exact absurd others.le (by omega)
      | succ most =>
          rw [countFactors, if_neg above, run_bind]
          exact inductionHypothesis (by omega)

/-- A count below the cut-off is one without an end. -/
theorem counts_run_countFactors
    (few : ((countFactors ending product count most).run generator).1 < count + most) :
    Counts ending product count generator
      ((countFactors ending product count most).run generator) := by
  induction most generalizing product count generator with
  | zero => exact absurd few (Nat.lt_irrefl _)
  | succ most inductionHypothesis =>
      rw [countFactors] at few ⊢
      split
      · exact .ends ‹_›
      · rename_i above
        rw [if_neg above, run_bind] at few
        exact .goesOn above (inductionHypothesis (by omega))

/-- A Poisson count below the cut-off is that of the loop without an end. -/
theorem counts_run_poisson
    (few : ((poisson ending).run generator).1 < maxCount) :
    Counts ending (fraction.run generator).1 0 (fraction.run generator).2
      ((poisson ending).run generator) := by
  rw [poisson, run_bind] at few ⊢
  refine counts_run_countFactors ?_
  rwa [Nat.zero_add]

end Neurochip.Draw
