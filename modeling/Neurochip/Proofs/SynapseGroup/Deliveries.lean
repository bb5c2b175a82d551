import Neurochip.Proofs.SynapseGroup.Traced
import Neurochip.Proofs.Tally.Sums

namespace Neurochip

/-!
# What a synapse group delivers

The index of a group is a shortcut.  The main statement says what the deliveries
are without it: for each arriving spike in order, each synapse of its neuron in
order delivers its actual weight.
-/

/-- What a spike through a synapse delivers. -/
def Synapse.delivery (synapse : Synapse) : Delivery :=
  { neuron := synapse.post, amount := synapse.weight.actual }

/-- The positions of a key in a list lead to the items with that key, in order. -/
theorem filterMap_positions
    (key : α → Nat)
    (sought : Nat)
    (items : List α) :
    (NeuronIndex.positions sought (items.map key)).filterMap (items[·]?) =
      items.filter fun item => decide (key item = sought) := by
  suffices general : ∀ before rest : List α,
      ((((rest.map key).zipIdx before.length).filter (·.1 == sought)).map (·.2)).filterMap
          ((before ++ rest)[·]?) =
        rest.filter fun item => decide (key item = sought) by
    exact general [] items
  intro before rest
  induction rest generalizing before with
  | nil => simp
  | cons item rest inductionHypothesis =>
      have later := inductionHypothesis (before ++ [item])
      rw [List.length_append, List.length_singleton, List.append_assoc,
        List.singleton_append] at later
      by_cases same : key item = sought
      · simp [same, later]
      · simp [same, later]

namespace SynapseGroup

variable {group : SynapseGroup}

/-- The positions that the index gives for a neuron lead to the synapses of this neuron. -/
theorem filterMap_lookup_outgoing (indexed : group.wiring.Indexed) (neuron : Nat) :
    (group.outgoing.lookup neuron).filterMap (group.synapses[·]?) =
      group.synapses.toList.filter fun synapse => decide (synapse.pre = neuron) := by
  have outgoing : group.outgoing = .ofNeurons (group.synapses.toList.map Synapse.pre) := by
    have := indexed.outgoing
    rwa [wiring, endsOf, List.map_map] at this
  rw [outgoing, NeuronIndex.lookup_ofNeurons,
    ← filterMap_positions Synapse.pre neuron group.synapses.toList]
  simp only [Array.getElem?_toList]

/-- Each arriving spike is delivered by each synapse of its neuron, in order. -/
theorem deliveries_eq
    (indexed : group.wiring.Indexed)
    (spikes : List Nat)
    (targets : Nat) :
    (group.transmit spikes targets).1 =
      ((group.arriving spikes).flatMap fun neuron =>
        group.synapses.toList.filter fun synapse =>
          decide (synapse.pre = neuron ∧ synapse.post < targets)).map Synapse.delivery := by
  rw [transmit_eq, reachedPositions, List.filter_flatMap, List.filterMap_flatMap,
    List.map_flatMap]
  refine congrArg (List.flatMap · _) (funext fun neuron => ?_)
  have found := filterMap_lookup_outgoing indexed neuron
  have within : (group.synapses.toList.filter fun synapse =>
        decide (synapse.pre = neuron ∧ synapse.post < targets)) =
      (group.synapses.toList.filter fun synapse => decide (synapse.pre = neuron)).filter
        fun synapse => decide (synapse.post < targets) := by
    rw [List.filter_filter]
    simp only [Bool.decide_and, Bool.and_comm]
  rw [within, ← found, List.filterMap_filter, List.filter_filterMap, List.map_filterMap]
  apply List.filterMap_congr
  intro position _
  rw [reaches, delivery?]
  cases group.synapses[position]? with
  | none => rfl
  | some synapse =>
      by_cases near : synapse.post < targets
      · simp [near, Synapse.delivery, Option.filter_some]
      · simp [near, Option.filter_some]

/-- Every position that reaches a target delivers something. -/
theorem length_filterMap_delivery?
    (group : SynapseGroup)
    (targets : Nat)
    (positions : List Nat) :
    ((positions.filter (group.reaches targets)).filterMap group.delivery?).length =
      (positions.filter (group.reaches targets)).length := by
  induction positions with
  | nil => rfl
  | cons position rest inductionHypothesis =>
      cases reached : group.reaches targets position with
      | false => simpa [reached] using inductionHypothesis
      | true =>
          cases found : group.synapses[position]? with
          | none => simp [reaches, found] at reached
          | some synapse => simpa [reached, delivery?, found] using inductionHypothesis

end SynapseGroup

end Neurochip
