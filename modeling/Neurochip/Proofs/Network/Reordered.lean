import Neurochip.Proofs.Network.Core
import Neurochip.Proofs.Network.Delivery
import Neurochip.Proofs.SynapseGroup.Reordered

namespace Neurochip

/-!
# The order of connections is irrelevant

Connections are listed in some order, and much of a step follows it.  Where
rounding draws nothing, networks whose descriptions differ only in the order of
the connections of a synapse group cannot be told apart by their reports and the
states of their neurons, and the states of their synapses differ only by this
order.
-/

/-- The order of deliveries does not change the inputs that they add up to. -/
theorem Delivery.addAll_perm
    {first second : List Delivery}
    (same : first.Perm second)
    (input : Array Int) :
    addAll first input = addAll second input := by
  apply Array.ext_getElem?
  intro neuron
  rw [getElem?_addAll, getElem?_addAll, balance_perm _ (same.filter _)]

/-- Parts that differ in order make lists that differ in order. -/
theorem perm_flatMap_of_forall₂
    {related : α → β → Prop}
    {items : List α}
    {others : List β}
    (all : List.Forall₂ related items others)
    {parts : α → List γ}
    {otherParts : β → List γ}
    (same : ∀ item other, related item other → (otherParts other).Perm (parts item)) :
    (others.flatMap otherParts).Perm (items.flatMap parts) := by
  induction all with
  | nil => exact .refl _
  | cons here _ inductionHypothesis =>
      rw [List.flatMap_cons, List.flatMap_cons]
      exact (same _ _ here).append inductionHypothesis

namespace Network

/-- The same network, but for the order of the synapses in each group. -/
structure Rearranged (orders : Nat → Equiv.Perm Nat) (first second : Network) : Prop where
  neurons : second.neuronGroups = first.neuronGroups
  sources : second.spikeSources = first.spikeSources
  rounding : second.rounding = first.rounding
  count : first.synapseGroups.length = second.synapseGroups.length
  synapses : ∀ (index : Nat) (group other : SynapseGroup),
    first.synapseGroups[index]? = some group → second.synapseGroups[index]? = some other →
      group.Rearranged (orders index) other

variable {orders : Nat → Equiv.Perm Nat} {first second : Network}

/-- The groups of both networks belong to each other one by one. -/
theorem Rearranged.each (rearranged : Rearranged orders first second) :
    List.Forall₂ (fun group other => ∃ order, group.Rearranged order other)
      first.synapseGroups second.synapseGroups := by
  rw [List.forall₂_iff_get]
  refine ⟨rearranged.count, fun index inside insideOther => ⟨orders index, ?_⟩⟩
  exact rearranged.synapses index _ _ (List.getElem?_eq_getElem inside)
    (List.getElem?_eq_getElem insideOther)

theorem Rearranged.spikeSources_emit
    (rearranged : Rearranged orders first second)
    (time : Nat) :
    (second.emit time).spikeSources = (first.emit time).spikeSources :=
  congrArg (List.map (SpikeSource.emit · time)) rearranged.sources

/-- In both networks the same spikes set out. -/
theorem Rearranged.lastSpikes_emit
    (rearranged : Rearranged orders first second)
    (time : Nat)
    (source : SourceRef) :
    (second.emit time).lastSpikes source = (first.emit time).lastSpikes source :=
  lastSpikes_congr (congrArg (List.map (·.lastSpikes)) rearranged.neurons)
    (rearranged.spikeSources_emit time) source

theorem Rearranged.groupSize_eq
    (rearranged : Rearranged orders first second)
    (target : Nat) :
    second.groupSize target = first.groupSize target :=
  groupSize_congr (congrArg (List.map (·.size)) rearranged.neurons) target

/-- Rearranged groups deliver the same to the same target, in another order. -/
theorem Rearranged.transmit_perm
    (rearranged : Rearranged orders first second)
    (time : Nat)
    {order : Equiv.Perm Nat}
    {group other : SynapseGroup}
    (here : group.Rearranged order other) :
    (other.transmit ((second.emit time).lastSpikes other.source)
        (second.groupSize other.target)).1.Perm
      (group.transmit ((first.emit time).lastSpikes group.source)
        (first.groupSize group.target)).1 := by
  rw [here.source, here.target, rearranged.lastSpikes_emit, rearranged.groupSize_eq]
  exact here.deliveries_perm _ _

/-- To each neuron group the same is delivered, in another order. -/
theorem Rearranged.deliveriesTo_perm
    (rearranged : Rearranged orders first second)
    (time target : Nat) :
    (deliveriesTo target (second.emit time).transmissions).Perm
      (deliveriesTo target (first.emit time).transmissions) := by
  rw [deliveriesTo_transmissions, deliveriesTo_transmissions]
  refine perm_flatMap_of_forall₂ rearranged.each fun group other ordered => ?_
  obtain ⟨order, here⟩ := ordered
  by_cases same : group.target = target
  · rw [if_pos (here.target.trans same), if_pos same]
    exact rearranged.transmit_perm time here
  · rw [if_neg fun sameOther => same (here.target.symm.trans sameOther), if_neg same]

/-- The neuron groups are updated in the same way. -/
theorem Rearranged.neurons_next
    (rearranged : Rearranged orders first second)
    (time : Nat) :
    (second.next time).neuronGroups = (first.next time).neuronGroups := by
  apply List.ext_getElem?
  intro target
  have received : ∀ group : NeuronGroup,
      group.addInputs (deliveriesTo target (second.emit time).transmissions) =
        group.addInputs (deliveriesTo target (first.emit time).transmissions) := by
    intro group
    rw [NeuronGroup.addInputs, NeuronGroup.addInputs,
      Delivery.addAll_perm (rearranged.deliveriesTo_perm time target)]
  rw [getElem?_neuronGroups_next, getElem?_neuronGroups_next, rearranged.neurons,
    rearranged.rounding]
  simp only [received]

/-- A step gives the same to rearranged groups. -/
theorem Rearranged.stimulus_eq
    (rearranged : Rearranged orders first second)
    (time : Nat)
    {order : Equiv.Perm Nat}
    {group other : SynapseGroup}
    (here : group.Rearranged order other) :
    second.stimulus time other = first.stimulus time group := by
  have targetSpikes : (second.halfway time).lastSpikes (.neuronGroup other.target) =
      (first.halfway time).lastSpikes (.neuronGroup other.target) :=
    @lastSpikes_congr (second.halfway time) (first.halfway time)
      (congrArg (List.map (·.lastSpikes)) (rearranged.neurons_next time))
      (rearranged.spikeSources_emit time) _
  rw [stimulus, stimulus, targetSpikes, here.source, here.target, rearranged.lastSpikes_emit,
    rearranged.groupSize_eq]

/-- Where rounding draws nothing, both networks report the same step. -/
theorem Rearranged.reportOf_eq
    (rearranged : Rearranged orders first second)
    (deterministic : first.rounding ≠ .stochastic)
    (time : Nat) :
    second.reportOf time = first.reportOf time := by
  have emitted : (second.emit time).emittedSpikes = (first.emit time).emittedSpikes := by
    rw [emittedSpikes, emittedSpikes, rearranged.spikeSources_emit]
  have fired : (second.halfway time).firedSpikes = (first.halfway time).firedSpikes :=
    firedSpikes_congr (congrArg (List.map (·.lastSpikes)) (rearranged.neurons_next time))
  have transmitted : tally (·.1.length) (second.emit time).transmissions =
      tally (·.1.length) (first.emit time).transmissions := by
    have counts : (second.emit time).transmissions.map (·.1.length) =
        (first.emit time).transmissions.map (·.1.length) := by
      rw [transmissions, transmissions, List.map_map, List.map_map]
      refine map_eq_of_forall₂ rearranged.each fun group other ordered => ?_
      obtain ⟨order, here⟩ := ordered
      exact (rearranged.transmit_perm time here).length_eq
    have sums := congrArg (tally id) counts
    rwa [tally_map, tally_map] at sums
  have updated : tally (fun other => (second.steppedGroup time other).1) second.synapseGroups =
      tally (fun group => (first.steppedGroup time group).1) first.synapseGroups := by
    have counts : second.synapseGroups.map (fun other => (second.steppedGroup time other).1) =
        first.synapseGroups.map fun group => (first.steppedGroup time group).1 := by
      refine map_eq_of_forall₂ rearranged.each fun group other ordered => ?_
      obtain ⟨order, here⟩ := ordered
      rw [steppedGroup, steppedGroup, rearranged.stimulus_eq time here, rearranged.rounding]
      exact here.stepped_fst_eq deterministic _
    have sums := congrArg (tally id) counts
    rwa [tally_map, tally_map] at sums
  rw [reportOf, reportOf, emitted, fired, transmitted, updated]

/-- After a step the networks still differ only in these orders. -/
theorem Rearranged.next
    (rearranged : Rearranged orders first second)
    (deterministic : first.rounding ≠ .stochastic)
    (time : Nat) :
    Rearranged orders (first.next time) (second.next time) := by
  refine
    { neurons := rearranged.neurons_next time
      sources := rearranged.spikeSources_emit time
      rounding := rearranged.rounding
      count := by simpa [Network.next] using rearranged.count
      synapses := ?_ }
  intro index after afterOther place placeOther
  rw [Network.next, List.getElem?_map] at place placeOther
  obtain ⟨group, found, rfl⟩ := Option.map_eq_some_iff.mp place
  obtain ⟨other, foundOther, rfl⟩ := Option.map_eq_some_iff.mp placeOther
  have here := rearranged.synapses index group other found foundOther
  rw [steppedGroup, steppedGroup, rearranged.stimulus_eq time here, rearranged.rounding]
  exact here.stepped deterministic _

/-- The states of the synapses of each group differ by the order of the group. -/
theorem Rearranged.states_reordered
    (rearranged : Rearranged orders first second)
    {index : Nat}
    (inside : index < first.synapseGroups.length)
    (insideOther : index < second.synapseGroups.length) :
    Reordered (orders index) first.synapseGroups[index].states
      second.synapseGroups[index].states :=
  (rearranged.synapses index _ _ (List.getElem?_eq_getElem inside)
    (List.getElem?_eq_getElem insideOther)).synapses.map Synapse.state

/-- The states of a group are the same if its synapses are in the same order. -/
theorem Rearranged.states_eq
    (rearranged : Rearranged orders first second)
    {index : Nat}
    (unmoved : orders index = .refl Nat) :
    second.synapseGroups[index]?.map (·.states) = first.synapseGroups[index]?.map (·.states) := by
  by_cases inside : index < first.synapseGroups.length
  · have here := rearranged.states_reordered inside (rearranged.count ▸ inside)
    rw [unmoved, Reordered.refl_iff] at here
    rw [List.getElem?_eq_getElem inside, List.getElem?_eq_getElem (rearranged.count ▸ inside),
      Option.map_some, Option.map_some, here]
  · rw [Nat.not_lt] at inside
    rw [List.getElem?_eq_none inside, List.getElem?_eq_none (rearranged.count ▸ inside)]

/-- However both networks are stepped, their reports are the same, and they differ only in these
orders. -/
theorem Rearranged.steps
    (rearranged : Rearranged orders first second)
    (deterministic : first.rounding ≠ .stochastic)
    (times : List Nat) :
    (second.steps times).1 = (first.steps times).1 ∧
      Rearranged orders (first.steps times).2 (second.steps times).2 ∧
      (first.steps times).2.rounding = first.rounding := by
  induction times using List.reverseRecOn with
  | nil => exact ⟨rfl, rearranged, rfl⟩
  | append_singleton times time inductionHypothesis =>
      obtain ⟨sameReports, reached, rounding⟩ := inductionHypothesis
      have still : (first.steps times).2.rounding ≠ .stochastic := rounding ▸ deterministic
      rw [steps_concat, steps_concat, sameReports, reached.reportOf_eq still]
      exact ⟨rfl, reached.next still time, rounding⟩

end Network

/-- The description with other connections of one of its synapse groups. -/
def NetworkParams.withConnections
    (params : NetworkParams)
    (position : Nat)
    (connections : List Connection) :
    NetworkParams :=
  { params with
    synapseGroups :=
      params.synapseGroups.modify position ({ · with connections := connections }) }

namespace Network

variable {processors : Nat} {params : NetworkParams} {described : SynapseGroupParams}
  {position : Nat} {connections : List Connection} {order : Equiv.Perm Nat}

theorem getElem?_synapseGroups_withConnections
    (params : NetworkParams)
    (position : Nat)
    (connections : List Connection)
    (index : Nat) :
    (params.withConnections position connections).synapseGroups[index]? =
      params.synapseGroups[index]?.map fun group =>
        if position = index then { group with connections := connections } else group :=
  List.getElem?_modify _ _ _ _

/-- All synapse groups but one are described as before. -/
theorem mem_synapseGroups_withConnections
    (found : params.synapseGroups[position]? = some described)
    {group : SynapseGroupParams}
    (member : group ∈ (params.withConnections position connections).synapseGroups) :
    group ∈ params.synapseGroups ∨ group = { described with connections := connections } := by
  obtain ⟨index, place⟩ := List.mem_iff_getElem?.mp member
  rw [getElem?_synapseGroups_withConnections] at place
  obtain ⟨before, foundBefore, rfl⟩ := Option.map_eq_some_iff.mp place
  split
  · rename_i same
    subst same
    obtain rfl := Option.some.inj (foundBefore.symm.trans found)
    exact .inr rfl
  · exact .inl (List.mem_of_getElem? foundBefore)

/-- A description is accepted with its connections in any order. -/
theorem exists_configure_withConnections
    {network : Network}
    (accepted : configure processors params = .ok network)
    (found : params.synapseGroups[position]? = some described)
    (permuted : described.connections.Perm connections) :
    ∃ other, configure processors (params.withConnections position connections) = .ok other := by
  obtain ⟨complete, acceptable, _⟩ := configure_eq_ok_iff.mp accepted
  have member := List.mem_of_getElem? found
  have same : ∀ {connection}, connection ∈ described.connections ↔ connection ∈ connections :=
    permuted.mem_iff
  refine exists_configure complete (NetworkParams.violations_eq_nil_iff.mpr
    ⟨acceptable.neuronGroups, acceptable.spikeSources, ?_, acceptable.technical⟩) ?_
  · intro group memberOther
    rcases mem_synapseGroups_withConnections found memberOther with old | rfl
    · obtain ⟨source, target, weights, synapse⟩ := acceptable.synapseGroups group old
      exact ⟨source, target, weights, synapse⟩
    · obtain ⟨⟨sources, source, pres⟩, ⟨targets, target, posts⟩, weights, synapse⟩ :=
        acceptable.synapseGroups described member
      exact
        ⟨⟨sources, source, fun connection listed => pres connection (same.mpr listed)⟩,
          ⟨targets, target, fun connection listed => posts connection (same.mpr listed)⟩,
          fun connection listed => weights connection (same.mpr listed), synapse⟩
  · intro group memberOther
    rcases mem_synapseGroups_withConnections found memberOther with old | rfl
    · exact exists_rule_of_configure accepted old
    · obtain ⟨rule, parsed⟩ := exists_rule_of_configure accepted member
      exact ⟨rule, parsed⟩

/-- An order of the synapses of one group, which leaves those of the others alone. -/
def orderAt (position : Nat) (order : Equiv.Perm Nat) (index : Nat) : Equiv.Perm Nat :=
  if index = position then order else .refl Nat

/-- The networks of descriptions that differ in the order of connections differ in this order. -/
theorem rearranged_initial
    (found : params.synapseGroups[position]? = some described)
    (reordered : Reordered order described.connections connections) :
    Rearranged (orderAt position order) (initial params)
      (initial (params.withConnections position connections)) := by
  refine
    { neurons := rfl
      sources := rfl
      rounding := rfl
      count := by simp [initial, NetworkParams.withConnections]
      synapses := ?_ }
  intro index group other place placeOther
  rw [getElem?_synapseGroups_initial] at place placeOther
  obtain ⟨before, foundBefore, rfl⟩ := Option.map_eq_some_iff.mp place
  rw [getElem?_synapseGroups_withConnections, foundBefore, Option.map_some, Option.map_some,
    Option.some.injEq] at placeOther
  subst placeOther
  by_cases same : position = index
  · subst same
    obtain rfl := Option.some.inj (foundBefore.symm.trans found)
    rw [orderAt, if_pos rfl, if_pos rfl]
    exact SynapseGroup.rearranged_atRest reordered _ _
  · rw [orderAt, if_neg (Ne.symm same), if_neg same]
    exact SynapseGroup.rearranged_atRest (Reordered.refl_iff.mpr rfl) _ _

/-- Where rounding draws nothing, the order of the connections of a synapse group is irrelevant: the
description is accepted with any other order, at whatever times the networks are stepped they
report the same and have the same neurons, and the states of the synapses of the group are the
same in the other order, those of all other groups the same in the same order. -/
theorem connection_order_is_irrelevant
    {first : Network}
    (accepted : configure processors params = .ok first)
    (deterministic :
      params.technical.rounding = .awayFromZero ∨ params.technical.rounding = .towardZero)
    (found : params.synapseGroups[position]? = some described)
    (permuted : described.connections.Perm connections) :
    ∃ second, configure processors (params.withConnections position connections) = .ok second ∧
      (∃ order, Reordered order described.connections connections) ∧
      ∀ order, Reordered order described.connections connections → ∀ times,
        (second.steps times).1 = (first.steps times).1 ∧
        (second.steps times).2.neuronGroups = (first.steps times).2.neuronGroups ∧
        (∃ group other,
          (first.steps times).2.synapseGroups[position]? = some group ∧
          (second.steps times).2.synapseGroups[position]? = some other ∧
          Reordered order group.states other.states) ∧
        ∀ index, index ≠ position →
          (second.steps times).2.synapseGroups[index]?.map (·.states) =
            (first.steps times).2.synapseGroups[index]?.map (·.states) := by
  obtain ⟨second, acceptedOther⟩ := exists_configure_withConnections accepted found permuted
  have rounding := rounding_ne_stochastic_of_configure accepted deterministic
  refine ⟨second, acceptedOther, Reordered.exists_of_perm permuted, fun order reordered times => ?_⟩
  have rearranged : Rearranged (orderAt position order) first second := by
    rw [eq_initial_of_configure accepted, eq_initial_of_configure acceptedOther]
    exact rearranged_initial found reordered
  obtain ⟨sameReports, reached, _⟩ := rearranged.steps rounding times
  refine ⟨sameReports, reached.neurons, ?_, fun index elsewhere =>
    reached.states_eq (if_neg elsewhere)⟩
  have inside : position < (first.steps times).2.synapseGroups.length := by
    rw [steps, (length_groups_performAll accepted _).2]
    exact (List.getElem?_eq_some_iff.mp found).1
  have here := reached.states_reordered inside (reached.count ▸ inside)
  rw [orderAt, if_pos rfl] at here
  exact ⟨_, _, List.getElem?_eq_getElem inside, List.getElem?_eq_getElem _, here⟩

/-- The pair of neurons, which rounds toward zero, cannot be told from the one with swapped
connections. -/
theorem connection_order_is_irrelevant_pair :
    ∃ first second,
      configure 1 { NetworkParams.pair with technical := { rounding := .towardZero } } =
        .ok first ∧
      configure 1 (NetworkParams.withConnections
        { NetworkParams.pair with technical := { rounding := .towardZero } } 0
        [{ pre := 0, post := 1, weight := 20 }, { pre := 0, post := 0, weight := 200 }]) =
        .ok second ∧
      ∀ times, (second.steps times).1 = (first.steps times).1 ∧
        (second.steps times).2.neuronGroups = (first.steps times).2.neuronGroups := by
  obtain ⟨first, accepted⟩ := @exists_configure 1
    { NetworkParams.pair with technical := { rounding := .towardZero } } rfl
    (by decide +kernel) NetworkParams.parse_pair
  have found : NetworkParams.pair.synapseGroups[0]? = some .learning := rfl
  obtain ⟨second, acceptedOther, ⟨order, reordered⟩, same⟩ :=
    connection_order_is_irrelevant accepted (.inr rfl) found (.swap _ _ [])
  refine ⟨first, second, accepted, acceptedOther, fun times => ?_⟩
  obtain ⟨reports, neurons, _⟩ := same order reordered times
  exact ⟨reports, neurons⟩

end Network

end Neurochip
