import Mathlib.Data.List.Perm.Basic
import Mathlib.Logic.Equiv.Basic
import Neurochip.Proofs.Random.Fixed
import Neurochip.Proofs.SynapseGroup.Deliveries
import Neurochip.Proofs.SynapseGroup.Operations

namespace Neurochip

/-!
# Synapses in another order

A synapse group meets its synapses in the order of its connections: its indices,
the lists of touched synapses and of pending changes, and the deliveries follow
it.  Where rounding draws nothing, none of this matters.  The main statements say
that a step makes of each synapse what depends on this synapse alone, and that
groups whose synapses are in different orders deliver the same in another order,
count the same number of changed weights, and have the same synapses in different
orders again.
-/

/-- The same items in another order, which tells for each position where its item comes from. -/
def Reordered (order : Equiv.Perm Nat) (items others : List α) : Prop :=
  ∀ position : Nat, others[position]? = items[order position]?

namespace Reordered

variable {order : Equiv.Perm Nat} {items others : List α}

/-- Without a change of order the list is the same. -/
theorem refl_iff : Reordered (.refl Nat) items others ↔ others = items :=
  ⟨fun reordered => List.ext_getElem? reordered, fun same position => by rw [same]; rfl⟩

protected theorem map
    (reordered : Reordered order items others)
    (change : α → β) :
    Reordered order (items.map change) (others.map change) := by
  intro position
  rw [List.getElem?_map, List.getElem?_map, reordered]

/-- The order leads from the positions of one list to those of the other. -/
theorem perm_range (reordered : Reordered order items others) :
    ((List.range others.length).map order).Perm (List.range items.length) := by
  rw [List.perm_ext_iff_of_nodup (List.nodup_range.map order.injective) List.nodup_range]
  intro position
  have inside : ∀ place, place < others.length ↔ order place < items.length := by
    intro place
    rw [← not_iff_not, Nat.not_lt, Nat.not_lt, ← List.getElem?_eq_none_iff,
      ← List.getElem?_eq_none_iff, reordered]
  simp only [List.mem_map, List.mem_range, inside]
  constructor
  · rintro ⟨place, within, rfl⟩
    exact within
  · intro within
    exact ⟨order.symm position, by rwa [order.apply_symm_apply], order.apply_symm_apply _⟩

/-- A list is read off at its positions. -/
theorem map_getElem?_range (items : List α) :
    (List.range items.length).map (items[·]?) = items.map some := by
  apply List.ext_getElem (by simp)
  intro position inside _
  rw [List.length_map, List.length_range] at inside
  simp [inside]

/-- A list in another order has the same items. -/
protected theorem perm (reordered : Reordered order items others) : others.Perm items := by
  rw [← List.map_perm_map_iff (Option.some_injective α), ← map_getElem?_range,
    ← map_getElem?_range]
  have places : (List.range others.length).map (others[·]?) =
      ((List.range others.length).map order).map (items[·]?) := by
    rw [List.map_map]
    exact List.map_congr_left fun place _ => reordered place
  rw [places]
  exact reordered.perm_range.map _

/-- The order that leaves the first position alone. -/
def afterFirst (order : Equiv.Perm Nat) : Equiv.Perm Nat where
  toFun
    | 0 => 0
    | position + 1 => order position + 1
  invFun
    | 0 => 0
    | position + 1 => order.symm position + 1
  left_inv position := by cases position <;> simp
  right_inv position := by cases position <;> simp

/-- Lists with the same items are the same list in different orders. -/
theorem exists_of_perm (same : items.Perm others) : ∃ order, Reordered order items others := by
  induction same with
  | nil => exact ⟨.refl Nat, fun _ => rfl⟩
  | cons item _ inductionHypothesis =>
      obtain ⟨order, reordered⟩ := inductionHypothesis
      refine ⟨afterFirst order, fun position => ?_⟩
      cases position with
      | zero => rfl
      | succ position => exact reordered position
  | swap first second rest =>
      refine ⟨Equiv.swap 0 1, fun position => ?_⟩
      match position with
      | 0 => rfl
      | 1 => rfl
      | position + 2 =>
          rw [Equiv.swap_apply_of_ne_of_ne (by omega) (by omega)]
          rfl
  | trans _ _ inductionHypothesisFirst inductionHypothesisSecond =>
      obtain ⟨order, reordered⟩ := inductionHypothesisFirst
      obtain ⟨next, reorderedNext⟩ := inductionHypothesisSecond
      refine ⟨next.trans order, fun position => ?_⟩
      rw [reorderedNext, reordered]
      rfl

end Reordered

theorem Synapse.ext_of_ends
    {first second : Synapse}
    (sameEnds : first.ends = second.ends)
    (sameWeight : first.weight = second.weight)
    (sameTraces : first.traces = second.traces)
    (sameArrived : first.arrived = second.arrived)
    (sameSpiked : first.spiked = second.spiked) :
    first = second := by
  cases first
  cases second
  simp_all [ends]

namespace SynapseGroup

variable {group other : SynapseGroup} {mode : RoundingMode} {stimulus : Stimulus}

/-- The traces of a synapse after decay when rounding draws nothing. -/
def decayedOf (group : SynapseGroup) (mode : RoundingMode) (synapse : Synapse) : Traces :=
  ((synapse.traces.decay group.params.traces mode).run group.generator).1

/-- The weight after a change when rounding draws nothing. -/
def weightAfter
    (group : SynapseGroup)
    (mode : RoundingMode)
    (synapse : Synapse)
    (change : Int) :
    Weight :=
  group.quantizer.quantize (synapse.weight.mantissa +
    ((mode.roundToMultiple change group.quantizer.precision).run group.generator).1)

/-- What a step makes of a synapse when rounding draws nothing. -/
def steppedSynapse
    (group : SynapseGroup)
    (stimulus : Stimulus)
    (mode : RoundingMode)
    (synapse : Synapse) :
    Synapse :=
  let traced := group.tracedSynapse stimulus synapse (group.decayedOf mode synapse)
  match group.rule.bind traced.change? with
  | none => traced.settle
  | some change => (traced.withWeight (group.weightAfter mode synapse change)).settle

theorem getElem?_decayedTraces
    (deterministic : mode ≠ .stochastic)
    {position : Nat}
    {synapse : Synapse}
    (found : group.synapses[position]? = some synapse) :
    ((group.decayedTraces mode).run group.generator).1[position]? =
      some (group.decayedOf mode synapse) := by
  rw [decayedTraces,
    Draw.run_mapM_of_fixed (fun traces => (traces.wordless_decay deterministic _).fixed) _ _
      group.generator,
    List.getElem?_map, List.getElem?_map, Array.getElem?_toList, found]
  rfl

/-- The outcome of a step for a synapse when rounding draws nothing. -/
theorem Outcome.eq_steppedSynapse
    (deterministic : mode ≠ .stochastic)
    {position : Nat}
    {before after : Synapse}
    (outcome :
      group.Outcome stimulus mode position before (group.decayedOf mode before) after) :
    after = group.steppedSynapse stimulus mode before := by
  cases asked : group.rule.bind
      (group.tracedSynapse stimulus before (group.decayedOf mode before)).change? with
  | none =>
      -- Without a change the rule was not triggered: whenever it is, it asks for some change.
      have idle : ∀ rule, group.rule = some rule →
          rule.isTriggered (group.hears stimulus before) (answers stimulus before) = false := by
        intro rule present
        rw [present, Option.bind_some] at asked
        by_contra busy
        have triggered : rule.isTriggered (group.hears stimulus before)
            (answers stimulus before) = true :=
          eq_true_of_ne_false busy
        have changes : (group.tracedSynapse stimulus before
            (group.decayedOf mode before)).change? rule = some _ :=
          Synapse.change?_eq_some_iff.mpr ⟨triggered, rfl⟩
        cases asked.symm.trans changes
      simp only [steppedSynapse, asked]
      exact Synapse.ext_of_ends outcome.ends (outcome.kept idle) outcome.traces
        outcome.unmarked.1 outcome.unmarked.2
  | some change =>
      obtain ⟨rule, present, changes⟩ := Option.bind_eq_some_iff.mp asked
      obtain ⟨triggered, rfl⟩ := Synapse.change?_eq_some_iff.mp changes
      have weight : after.weight = _ := outcome.learned rule present triggered
      simp only [steppedSynapse, asked]
      refine Synapse.ext_of_ends outcome.ends ?_ outcome.traces
        outcome.unmarked.1 outcome.unmarked.2
      rw [weight, outcome.traces, roundedChange,
        (RoundingMode.wordless_roundToMultiple deterministic _ _).fixed _ group.generator]
      rfl

/-- Where rounding draws nothing, a step makes of each synapse what depends on it alone. -/
theorem toList_stepped
    (deterministic : mode ≠ .stochastic)
    (indexed : group.wiring.Indexed)
    (settled : group.Settled)
    (stimulus : Stimulus) :
    (group.stepped stimulus mode).2.synapses.toList =
      group.synapses.toList.map (group.steppedSynapse stimulus mode) := by
  apply List.ext_getElem?
  intro position
  rw [List.getElem?_map, Array.getElem?_toList, Array.getElem?_toList]
  cases found : group.synapses[position]? with
  | none =>
      have sameSize : (group.stepped stimulus mode).2.synapses.size = group.synapses.size :=
        size_of_wiring (wiring_stepped group stimulus mode)
      rw [Option.map_none, Array.getElem?_eq_none_iff, sameSize, ← Array.getElem?_eq_none_iff]
      exact found
  | some before =>
      obtain ⟨after, place, outcome⟩ := outcome_stepped indexed settled stimulus mode found
        (getElem?_decayedTraces deterministic found)
      rw [place, outcome.eq_steppedSynapse deterministic, Option.map_some]

/-- The step answers how many synapses get another weight. -/
theorem stepped_fst_eq_countP
    (deterministic : mode ≠ .stochastic)
    (indexed : group.wiring.Indexed)
    (settled : group.Settled)
    (stimulus : Stimulus) :
    (group.stepped stimulus mode).1 =
      group.synapses.toList.countP fun synapse =>
        decide (synapse.weight ≠ (group.steppedSynapse stimulus mode synapse).weight) := by
  have differ : differsAt group.synapses (group.stepped stimulus mode).2.synapses =
      (fun place : Option Synapse => decide (place.map Synapse.weight ≠
        (place.map (group.steppedSynapse stimulus mode)).map Synapse.weight)) ∘
        (group.synapses.toList[·]?) := by
    funext position
    have here := congrArg (·[position]?) (toList_stepped deterministic indexed settled stimulus)
    simp only [List.getElem?_map, Array.getElem?_toList] at here
    rw [differsAt, here, Function.comp_apply, Array.getElem?_toList]
  rw [stepped_fst_eq_differences indexed settled, differences, differ, ← List.countP_map,
    ← Array.length_toList, Reordered.map_getElem?_range, List.countP_map]
  simp [Function.comp_def]

/-- The same group, but for the order of its synapses, its indices and its generator. -/
structure Rearranged (order : Equiv.Perm Nat) (group other : SynapseGroup) : Prop where
  wiring : other.wiring =
    { group.wiring with
      ends := other.wiring.ends
      outgoing := other.wiring.outgoing
      incoming := other.wiring.incoming }
  inFlight : other.inFlight = group.inFlight
  synapses : Reordered order group.synapses.toList other.synapses.toList
  indexed : group.wiring.Indexed
  indexedOther : other.wiring.Indexed
  settled : group.Settled
  settledOther : other.Settled

variable {order : Equiv.Perm Nat}

theorem Rearranged.source (rearranged : Rearranged order group other) :
    other.source = group.source :=
  congrArg Wiring.source rearranged.wiring

theorem Rearranged.target (rearranged : Rearranged order group other) :
    other.target = group.target :=
  congrArg Wiring.target rearranged.wiring

theorem Rearranged.params (rearranged : Rearranged order group other) :
    other.params = group.params :=
  congrArg Wiring.params rearranged.wiring

theorem Rearranged.rule (rearranged : Rearranged order group other) :
    other.rule = group.rule :=
  congrArg Wiring.rule rearranged.wiring

theorem Rearranged.arriving_eq
    (rearranged : Rearranged order group other)
    (spikes : List Nat) :
    other.arriving spikes = group.arriving spikes := by
  rw [arriving, arriving, rearranged.inFlight, rearranged.params]

/-- Rearranged groups deliver the same in another order. -/
theorem Rearranged.deliveries_perm
    (rearranged : Rearranged order group other)
    (spikes : List Nat)
    (targets : Nat) :
    (other.transmit spikes targets).1.Perm (group.transmit spikes targets).1 := by
  rw [deliveries_eq rearranged.indexedOther, deliveries_eq rearranged.indexed,
    rearranged.arriving_eq]
  exact (List.Perm.flatMap_left _ fun _ _ => rearranged.synapses.perm.filter _).map _

/-- In rearranged groups a step makes the same of the same synapse. -/
theorem Rearranged.steppedSynapse_eq
    (rearranged : Rearranged order group other)
    (deterministic : mode ≠ .stochastic)
    (stimulus : Stimulus) :
    other.steppedSynapse stimulus mode = group.steppedSynapse stimulus mode := by
  funext synapse
  have decayed : other.decayedOf mode synapse = group.decayedOf mode synapse := by
    rw [decayedOf, decayedOf, rearranged.params]
    exact (synapse.traces.wordless_decay deterministic _).fixed _ _
  have traced : other.tracedSynapse stimulus synapse = group.tracedSynapse stimulus synapse := by
    funext traces
    rw [tracedSynapse, tracedSynapse, hears, hears, rearranged.arriving_eq, rearranged.params]
  have weight : other.weightAfter mode synapse = group.weightAfter mode synapse := by
    funext change
    rw [weightAfter, weightAfter, quantizer, quantizer, rearranged.params,
      (RoundingMode.wordless_roundToMultiple deterministic _ _).fixed other.generator
        group.generator]
  rw [steppedSynapse, steppedSynapse, decayed, traced, weight, rearranged.rule]

/-- A step of rearranged groups makes equally many weights different. -/
theorem Rearranged.stepped_fst_eq
    (rearranged : Rearranged order group other)
    (deterministic : mode ≠ .stochastic)
    (stimulus : Stimulus) :
    (other.stepped stimulus mode).1 = (group.stepped stimulus mode).1 := by
  rw [stepped_fst_eq_countP deterministic rearranged.indexedOther rearranged.settledOther,
    stepped_fst_eq_countP deterministic rearranged.indexed rearranged.settled,
    rearranged.steppedSynapse_eq deterministic, rearranged.synapses.perm.countP_eq]

/-- After a step the groups are still rearranged, in the same order. -/
theorem Rearranged.stepped
    (rearranged : Rearranged order group other)
    (deterministic : mode ≠ .stochastic)
    (stimulus : Stimulus) :
    Rearranged order (group.stepped stimulus mode).2 (other.stepped stimulus mode).2 := by
  have wiring := wiring_stepped group stimulus mode
  have wiringOther := wiring_stepped other stimulus mode
  exact
    { wiring := by
        rw [wiring, wiringOther]
        exact rearranged.wiring
      inFlight := by
        rw [inFlight_stepped, inFlight_stepped, rearranged.inFlight, rearranged.params]
      synapses := by
        rw [toList_stepped deterministic rearranged.indexed rearranged.settled,
          toList_stepped deterministic rearranged.indexedOther rearranged.settledOther,
          rearranged.steppedSynapse_eq deterministic]
        exact rearranged.synapses.map _
      indexed := wiring ▸ rearranged.indexed
      indexedOther := wiringOther ▸ rearranged.indexedOther
      settled := settled_stepped rearranged.settled stimulus mode
      settledOther := settled_stepped rearranged.settledOther stimulus mode }

/-- Groups at rest with the same connections in different orders are rearranged. -/
theorem rearranged_atRest
    {params : SynapseGroupParams}
    {connections : List Connection}
    (reordered : Reordered order params.connections connections)
    (rule : Option LearningRule)
    (generator : Generator) :
    Rearranged order (atRest params rule generator)
      (atRest { params with connections := connections } rule generator) :=
  { wiring := rfl
    inFlight := rfl
    synapses := reordered.map _
    indexed := indexed_atRest _ _ _
    indexedOther := indexed_atRest _ _ _
    settled := settled_atRest _ _ _
    settledOther := settled_atRest _ _ _ }

end SynapseGroup

end Neurochip
