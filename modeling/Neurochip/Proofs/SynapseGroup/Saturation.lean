import Mathlib.Order.Bounds.Basic
import Neurochip.Proofs.SynapseGroup.WellFormed
import Neurochip.Proofs.Weight.Exact

namespace Neurochip

/-!
# Weight changes of any size

A learning rule may ask for a change that is far beyond all weights.  On its way
into a weight the change is limited to a word three times, and may leave the grid
there.  The main statement says that this makes no difference: the weight is the
one that exact arithmetic gives for the old mantissa and the steps on the grid
to which the change is rounded.
-/

namespace Quantizer

/-- The steps on the grid of weights to which a change is rounded. -/
def gridSteps (quantizer : Quantizer) (mode : RoundingMode) (change : Int) : Draw Int :=
  if quantizer.precision = 1 then
    return change
  else
    mode.quotient change quantizer.precision.toNat

variable {quantizer : Quantizer} {mantissa : Int}

/-- What is in range and on the grid stays where it is. -/
theorem onGrid_eq_self
    (inRange : quantizer.signMode.range.Contains mantissa)
    (divides : quantizer.precision ∣ mantissa) :
    quantizer.onGrid mantissa = mantissa := by
  rw [onGrid, Bounds.clamp_eq_self inRange, Int.tdiv_mul_cancel divides]

/-- Limiting a change to a word makes no difference to the weight. -/
theorem quantize_add_clamp_int64
    (inRange : quantizer.signMode.range.Contains mantissa)
    (change : Int) :
    quantizer.quantize (mantissa + Bounds.int64.clamp change) =
      quantizer.quantize (mantissa + change) := by
  have small := contains_range inRange
  have same : quantizer.signMode.range.clamp (mantissa + Bounds.int64.clamp change) =
      quantizer.signMode.range.clamp (mantissa + change) := by
    have lower : -256 ≤ quantizer.signMode.range.lower := by
      cases quantizer.signMode <;> decide
    have upper : quantizer.signMode.range.upper ≤ 255 := by
      cases quantizer.signMode <;> decide
    have ordered := quantizer.signMode.range.ordered
    simp only [Bounds.clamp, Bounds.int64]
    grind
  rw [quantize, quantize, same]

/-- Rounding a change to the grid is taking its steps, and limiting where they lead. -/
theorem run_roundToMultiple_precision
    (quantizer : Quantizer)
    (mode : RoundingMode)
    (change : Int)
    (generator : Generator) :
    ((mode.roundToMultiple change quantizer.precision).run generator).1 =
      if quantizer.precision = 1 then
        change
      else
        Bounds.int64.clamp
          (((quantizer.gridSteps mode change).run generator).1 * quantizer.precision) := by
  have positive := quantizer.precision_pos
  unfold RoundingMode.roundToMultiple gridSteps
  by_cases fine : quantizer.precision = 1
  · rw [if_pos (by omega), if_pos fine, Draw.run_pure]
  · rw [if_neg (by omega), if_neg fine, if_neg fine, Draw.run_bind, Draw.run_pure]

/-- The changed weight is that for the steps of the change. -/
theorem quantize_add_roundToMultiple
    (inRange : quantizer.signMode.range.Contains mantissa)
    (mode : RoundingMode)
    (change : Int)
    (generator : Generator) :
    quantizer.quantize
        (mantissa + ((mode.roundToMultiple change quantizer.precision).run generator).1) =
      quantizer.quantize
        (mantissa +
          ((quantizer.gridSteps mode change).run generator).1 * quantizer.precision) := by
  rw [run_roundToMultiple_precision]
  split
  · rename_i fine
    rw [gridSteps, if_pos fine, fine, Draw.run_pure, Int.mul_one]
  · exact quantize_add_clamp_int64 inRange _

/-- The steps of a change lead less than one step past it, or fall less than one short of it. -/
theorem abs_gridSteps_sub_lt
    (quantizer : Quantizer)
    (mode : RoundingMode)
    (change : Int)
    (generator : Generator) :
    |((quantizer.gridSteps mode change).run generator).1 * quantizer.precision - change| <
      quantizer.precision := by
  have positive := quantizer.precision_pos
  unfold gridSteps
  split
  · rename_i fine
    simp [fine]
  · have whole : (quantizer.precision.toNat : Int) = quantizer.precision :=
      Int.toNat_of_nonneg (Int.le_of_lt positive)
    have near := mode.abs_run_quotient_mul_sub_lt change
      (by omega : 0 < quantizer.precision.toNat) generator
    rwa [whole] at near

/-- What a commit makes of a mantissa that has to change, where the change is rounded to some steps
on the grid. -/
structure Moves
    (quantizer : Quantizer)
    (mantissa change steps : Int)
    (after : Weight) :
    Prop where
  exactly : after = quantizer.exactWeight (mantissa + steps * quantizer.precision)
  inside : quantizer.signMode.range.Contains (mantissa + steps * quantizer.precision) →
    after.mantissa = mantissa + steps * quantizer.precision ∧
      |after.mantissa - (mantissa + change)| < quantizer.precision
  above : quantizer.signMode.range.upper < mantissa + steps * quantizer.precision →
    IsGreatest {multiple | quantizer.signMode.range.Contains multiple ∧
      quantizer.precision ∣ multiple} after.mantissa
  below : mantissa + steps * quantizer.precision < quantizer.signMode.range.lower →
    IsLeast {multiple | quantizer.signMode.range.Contains multiple ∧
      quantizer.precision ∣ multiple} after.mantissa

/-- The weight for some steps from a stored mantissa is where the steps lead, or the last multiple of
the precision on the way there. -/
theorem moves_quantize
    (supported : -8 ≤ quantizer.exponent ∧ quantizer.exponent ≤ 7)
    (divides : quantizer.precision ∣ mantissa)
    (mode : RoundingMode)
    (change : Int)
    (generator : Generator) :
    let steps := ((quantizer.gridSteps mode change).run generator).1
    quantizer.Moves mantissa change steps
      (quantizer.quantize (mantissa + steps * quantizer.precision)) := by
  intro steps
  have member : quantizer.onGrid (mantissa + steps * quantizer.precision) ∈
      {multiple | quantizer.signMode.range.Contains multiple ∧ quantizer.precision ∣ multiple} :=
    ⟨quantizer.contains_onGrid _, Int.dvd_mul_left _ _⟩
  constructor
  case exactly => exact quantize_eq_exactWeight supported _
  case inside =>
    intro inRange
    have arrived : quantizer.onGrid (mantissa + steps * quantizer.precision) =
        mantissa + steps * quantizer.precision :=
      onGrid_eq_self inRange (Int.dvd_add divides (Int.dvd_mul_left _ _))
    have close := quantizer.abs_gridSteps_sub_lt mode change generator
    rw [quantize_eq]
    refine ⟨arrived, ?_⟩
    rw [arrived, Int.add_sub_add_left]
    exact close
  case above =>
    intro beyond
    refine ⟨member, fun multiple ⟨inRange, onGrid⟩ => ?_⟩
    rw [← onGrid_eq_self inRange onGrid]
    exact quantizer.onGrid_le_onGrid (Int.le_of_lt (Int.lt_of_le_of_lt inRange.2 beyond))
  case below =>
    intro beyond
    refine ⟨member, fun multiple ⟨inRange, onGrid⟩ => ?_⟩
    rw [← onGrid_eq_self inRange onGrid]
    exact quantizer.onGrid_le_onGrid (Int.le_of_lt (Int.lt_of_lt_of_le beyond inRange.1))

end Quantizer

namespace SynapseGroup

/-- The group with other changes that wait to be committed. -/
def withPending (group : SynapseGroup) (changes : List PendingChange) : SynapseGroup :=
  { group with pending := changes }

/-- Later changes are committed where earlier ones have led. -/
theorem run_commitAll_append
    (quantizer : Quantizer)
    (mode : RoundingMode)
    (earlier later : List PendingChange)
    (synapses : Array Synapse)
    (different : Nat)
    (generator : Generator) :
    (commitAll quantizer mode (earlier ++ later) synapses different).run generator =
      (commitAll quantizer mode later
        ((commitAll quantizer mode earlier synapses different).run generator).1.1
        ((commitAll quantizer mode earlier synapses different).run generator).1.2).run
        ((commitAll quantizer mode earlier synapses different).run generator).2 := by
  induction earlier generalizing synapses different generator with
  | nil => rfl
  | cons pending rest inductionHypothesis =>
      cases found : synapses[pending.position]? with
      | none => simp only [List.cons_append, commitAll, found, inductionHypothesis]
      | some synapse =>
          simp only [List.cons_append, commitAll, found, Draw.run_bind, inductionHypothesis]

theorem size_commitAll
    (quantizer : Quantizer)
    (mode : RoundingMode)
    (changes : List PendingChange)
    (synapses : Array Synapse)
    (different : Nat)
    (generator : Generator) :
    ((commitAll quantizer mode changes synapses different).run generator).1.1.size =
      synapses.size := by
  have same := map_commitAll Synapse.keeps_ends_weight quantizer mode changes synapses different
    generator
  simpa using congrArg List.length same

/-- The end of a step changes no weight. -/
theorem weights_commit (group : SynapseGroup) (mode : RoundingMode) :
    (group.commit mode).2.weights =
      ((group.changedSynapses mode).run group.generator).1.1.toList.map Synapse.weight := by
  have keeps : Synapse.Keeps Synapse.weight Synapse.settle := fun _ => rfl
  rw [commit_eq]
  exact map_foldl_modify keeps _ _

theorem generator_commit (group : SynapseGroup) (mode : RoundingMode) :
    (group.commit mode).2.generator =
      ((group.changedSynapses mode).run group.generator).2 := by
  rw [commit_eq]

/-- Weights that a quantizer stores are still such weights after a commit. -/
theorem stored_commit
    (group : SynapseGroup)
    (stored : ∀ weight ∈ group.weights, group.quantizer.quantize weight.mantissa = weight)
    (mode : RoundingMode) :
    ∀ weight ∈ (group.commit mode).2.weights,
      group.quantizer.quantize weight.mantissa = weight := by
  have storedBefore : ∀ synapse ∈ group.synapses.toList,
      group.quantizer.quantize synapse.weight.mantissa = synapse.weight :=
    fun synapse member => stored _ (List.mem_map_of_mem member)
  rw [weights_commit, List.forall_mem_map]
  exact forall_mem_commitAll
    (fun _ mantissa _ => group.quantizer.quantize_mantissa_quantize mantissa)
    mode group.pending storedBefore 0 group.generator

/-- The last pending change of a synapse starts from the weight and the generator that a commit of
the changes before it would leave, and later changes do not touch the weight that it gives. -/
theorem exists_weights_commit
    {group : SynapseGroup}
    (inside : Inside group.pending group.synapses)
    {earlier later : List PendingChange}
    {pending : PendingChange}
    (waiting : group.pending = earlier ++ pending :: later)
    (last : pending.position ∉ later.map PendingChange.position)
    (mode : RoundingMode) :
    let before := ((group.withPending earlier).commit mode).2
    let rounded := (mode.roundToMultiple pending.change group.quantizer.precision).run
      before.generator
    ∃ old, before.weights[pending.position]? = some old ∧
      (group.commit mode).2.weights[pending.position]? =
        some (group.quantizer.quantize (old.mantissa + rounded.1)) := by
  let start := (commitAll group.quantizer mode earlier group.synapses 0).run group.generator
  have insideStart : Inside (pending :: later) start.1.1 := by
    intro other member
    have sameSize : start.1.1.size = group.synapses.size := size_commitAll _ _ _ _ _ _
    rw [sameSize]
    exact inside other (waiting ▸ List.mem_append_right earlier member)
  obtain ⟨synapse, found⟩ := insideStart.head
  refine ⟨synapse.weight, ?_, ?_⟩
  · have weightsBefore : ((group.withPending earlier).commit mode).2.weights =
        start.1.1.toList.map Synapse.weight :=
      weights_commit _ mode
    rw [weightsBefore, List.getElem?_map, Array.getElem?_toList, found]
    rfl
  · have generatorBefore : ((group.withPending earlier).commit mode).2.generator = start.2 :=
      generator_commit _ mode
    rw [weights_commit, changedSynapses, waiting, run_commitAll_append,
      run_commitAll_cons _ _ found, List.getElem?_map, Array.getElem?_toList,
      getElem?_commitAll_of_not_mem (insideStart.tail _) last, Array.getElem?_modify, if_pos rfl,
      found, generatorBefore]
    rfl

/-- The register of a synapse after its last pending change is the weight that exact arithmetic gives
for the mantissa before and the steps of the change, however large the change is. -/
theorem commit_moves_along_the_grid
    {group : SynapseGroup}
    (supported : -8 ≤ group.quantizer.exponent ∧ group.quantizer.exponent ≤ 7)
    (stored : ∀ weight ∈ group.weights, group.quantizer.quantize weight.mantissa = weight)
    (inside : Inside group.pending group.synapses)
    {earlier later : List PendingChange}
    {pending : PendingChange}
    (waiting : group.pending = earlier ++ pending :: later)
    (last : pending.position ∉ later.map PendingChange.position)
    (mode : RoundingMode) :
    let before := ((group.withPending earlier).commit mode).2
    let steps := ((group.quantizer.gridSteps mode pending.change).run before.generator).1
    ∃ old new, before.weights[pending.position]? = some old ∧
      (group.commit mode).2.weights[pending.position]? = some new ∧
      group.quantizer.Moves old.mantissa pending.change steps new := by
  intro before steps
  obtain ⟨old, foundBefore, foundAfter⟩ := exists_weights_commit inside waiting last mode
  have storedBefore : ∀ weight ∈ before.weights,
      group.quantizer.quantize weight.mantissa = weight :=
    (group.withPending earlier).stored_commit stored mode
  have stores := Quantizer.stores_of_quantize_eq supported
    (storedBefore old (List.mem_of_getElem? foundBefore))
  rw [Quantizer.quantize_add_roundToMultiple stores.inRange] at foundAfter
  exact ⟨old, _, foundBefore, foundAfter,
    Quantizer.moves_quantize supported stores.onGrid mode pending.change before.generator⟩

/-- A pair of synapses on a coarse grid, one of which has to change twice, the second time by as much
as a word can hold. -/
def overdriven : SynapseGroup :=
  (atRest
    { source := .spikeSource 0
      target := 0
      connections :=
        [{ pre := 0, post := 0, weight := -200 }, { pre := 0, post := 1, weight := 40 }]
      synapse := { signMode := .mixed, weightBits := 3 } }
    none (.ofSeed 0)).withPending
      [⟨0, 75⟩, ⟨1, -9223372036854775808⟩, ⟨0, 9223372036854775807⟩]

/-- The last change of a synapse follows two others. -/
theorem commit_moves_along_the_grid_overdriven :
    (-8 ≤ overdriven.quantizer.exponent ∧ overdriven.quantizer.exponent ≤ 7) ∧
      (∀ weight ∈ overdriven.weights,
        overdriven.quantizer.quantize weight.mantissa = weight) ∧
      Inside overdriven.pending overdriven.synapses ∧
      overdriven.pending =
        [⟨0, 75⟩, ⟨1, -9223372036854775808⟩] ++ ⟨0, 9223372036854775807⟩ :: [] ∧
      0 ∉ ([] : List PendingChange).map PendingChange.position ∧
      let before := ((overdriven.withPending [⟨0, 75⟩, ⟨1, -9223372036854775808⟩]).commit
        .stochastic).2
      let steps := ((overdriven.quantizer.gridSteps .stochastic 9223372036854775807).run
        before.generator).1
      ∃ old new, before.weights[0]? = some old ∧
        (overdriven.commit .stochastic).2.weights[0]? = some new ∧
        overdriven.quantizer.Moves old.mantissa 9223372036854775807 steps new := by
  have supported : -8 ≤ overdriven.quantizer.exponent ∧ overdriven.quantizer.exponent ≤ 7 := by
    decide
  have stored : ∀ weight ∈ overdriven.weights,
      overdriven.quantizer.quantize weight.mantissa = weight := by decide
  have inside : Inside overdriven.pending overdriven.synapses := by
    unfold Inside
    decide
  have waiting : overdriven.pending =
      [⟨0, 75⟩, ⟨1, -9223372036854775808⟩] ++ ⟨0, 9223372036854775807⟩ :: [] := rfl
  have last : 0 ∉ ([] : List PendingChange).map PendingChange.position := by decide
  exact ⟨supported, stored, inside, waiting, last,
    commit_moves_along_the_grid supported stored inside waiting last .stochastic⟩

end SynapseGroup

end Neurochip
