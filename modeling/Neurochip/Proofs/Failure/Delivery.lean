import Neurochip.Proofs.Failure.SynapseGroup
import Neurochip.Proofs.Network.Delivery
import Neurochip.Proofs.Network.Restoring
import Neurochip.Proofs.SpikeSource.Search

namespace Neurochip

/-!
# Delivering spikes does not fail

The sources emit, and one synapse group after the other adds what it transmits
to the inputs of its target.  In a sane network every group finds its source and
its target, and the inputs hold no more than the transmissions counted so far.
-/

/-- The time within the pattern of a source, by a division unless the pattern is played once. -/
def SpikeSource.localTimeGuarded (source : SpikeSource) (time : Nat) : Except Failure Nat :=
  if source.period = 0 then
    .ok time
  else
    Guard.dividedNat (· % ·) time source.period

/-- The source after it has emitted the spikes of a time, looked up from where the search ends. -/
def SpikeSource.emitGuarded (source : SpikeSource) (time : Nat) : Except Failure SpikeSource := do
  let now ← source.localTimeGuarded time
  let start := partitionPoint (·.time < now) source.events
  let (_, reached) ← Guard.splitAt start source.events
  return { source with lastSpikes := (reached.takeWhile (·.time == now)).map (·.index) }

theorem SpikeSource.localTimeGuarded_eq (source : SpikeSource) (time : Nat) :
    source.localTimeGuarded time = .ok (source.localTime time) := by
  unfold localTimeGuarded localTime
  split
  · rfl
  · exact Guard.dividedNat_of_pos (by omega)

/-- A source emits without failure. -/
theorem SpikeSource.emitGuarded_eq (source : SpikeSource) (time : Nat) :
    source.emitGuarded time = .ok (source.emit time) := by
  have inside := partitionPoint_le_length (·.time < source.localTime time) source.events
  unfold emitGuarded
  rw [bind_of_eq_ok (source.localTimeGuarded_eq time),
    bind_of_eq_ok (Guard.splitAt_of_le inside)]
  rfl

namespace Network

/-- The network after its sources have emitted the spikes of a time. -/
def emitGuarded (network : Network) (time : Nat) : Except Failure Network := do
  let sources ← network.spikeSources.mapM (·.emitGuarded time)
  return { network with spikeSources := sources }

/-- The last spikes of an object, which has to exist. -/
def lastSpikesGuarded (network : Network) : SourceRef → Except Failure (List Nat)
  | .neuronGroup group => do
      let group ← Guard.itemAt network.neuronGroups group
      return group.lastSpikes
  | .spikeSource source => do
      let source ← Guard.itemAt network.spikeSources source
      return source.lastSpikes

/-- The groups in the middle of delivery, and the number of transmissions so far. -/
structure Delivering where
  neuronGroups : List NeuronGroup
  synapseGroups : List SynapseGroup
  transmissions : Nat

/-- Lets one more synapse group transmit the last spikes of its source to its target. -/
def deliverGuarded (network : Network) (delivering : Delivering) (group : SynapseGroup) :
    Except Failure Delivering := do
  let spikes ← network.lastSpikesGuarded group.source
  let target ← Guard.itemAt delivering.neuronGroups group.target
  let (count, input, transmitted) ← group.transmitGuarded spikes target.input
  return {
    neuronGroups := delivering.neuronGroups.set group.target { target with input := input }
    synapseGroups := delivering.synapseGroups ++ [transmitted]
    transmissions := delivering.transmissions + count }

/-- Lets all synapse groups transmit, one after the other. -/
def deliverAllGuarded (network : Network) : Except Failure Delivering :=
  network.synapseGroups.foldlM network.deliverGuarded
    { neuronGroups := network.neuronGroups, synapseGroups := [], transmissions := 0 }

variable {network : Network} {delivering : Delivering}

/-- The last spikes of an object that exists are looked up without failure. -/
theorem lastSpikesGuarded_eq
    {source : SourceRef}
    (placed : network.layout.HasSource source) :
    network.lastSpikesGuarded source = .ok (network.lastSpikes source) := by
  cases source with
  | neuronGroup group =>
      have inside : group < network.neuronGroups.length := by
        simpa [Layout.HasSource, layout] using placed
      have found := List.getElem?_eq_getElem inside
      rw [lastSpikesGuarded, bind_of_eq_ok (Guard.itemAt_of_some found)]
      simp only [lastSpikes, found]
      rfl
  | spikeSource source =>
      have inside : source < network.spikeSources.length := by
        simpa [Layout.HasSource, layout] using placed
      have found := List.getElem?_eq_getElem inside
      rw [lastSpikesGuarded, bind_of_eq_ok (Guard.itemAt_of_some found)]
      simp only [lastSpikes, found]
      rfl

/-- What a synapse group delivers of the last spikes of its source, and the group afterwards. -/
def transmission (network : Network) (group : SynapseGroup) : List Delivery × SynapseGroup :=
  group.transmit (network.lastSpikes group.source) (network.groupSize group.target)

/-- The groups and the number of transmissions after one more synapse group has transmitted. -/
def Delivering.add
    (delivering : Delivering)
    (transmission : List Delivery × SynapseGroup) :
    Delivering :=
  { neuronGroups :=
      delivering.neuronGroups.modify transmission.2.target (·.addInputs transmission.1)
    synapseGroups := delivering.synapseGroups ++ [transmission.2]
    transmissions := delivering.transmissions + transmission.1.length }

/-- The neuron groups of a network have collected nothing but the transmissions so far. -/
structure Delivering.Of (delivering : Delivering) (network : Network) : Prop where
  sizes : delivering.neuronGroups.map (·.size) = network.neuronGroups.map (·.size)
  fitted : ∀ group ∈ delivering.neuronGroups, group.Fitted
  collected : ∀ group ∈ delivering.neuronGroups,
    Delivery.Collected delivering.transmissions group.input

/-- A synapse group that is ready for a step and finds its source and its target. -/
structure Placed (network : Network) (group : SynapseGroup) : Prop where
  ready : group.Ready
  source : network.layout.HasSource group.source
  target : group.target < network.neuronGroups.length

/-- The groups of a delivery together. -/
theorem Delivering.foldl_add
    (delivering : Delivering)
    (transmissions : List (List Delivery × SynapseGroup)) :
    transmissions.foldl add delivering =
      { neuronGroups := receive delivering.neuronGroups transmissions
        synapseGroups := delivering.synapseGroups ++ transmissions.map (·.2)
        transmissions := delivering.transmissions + tally (·.1.length) transmissions } := by
  induction transmissions generalizing delivering with
  | nil => simp [receive]
  | cons first rest inductionHypothesis =>
      rw [List.foldl_cons, inductionHypothesis]
      simp [add, receive, Nat.add_assoc]

/-- A neuron group at the middle of a delivery has the size that it has in the network. -/
theorem Delivering.Of.size_eq
    (of : delivering.Of network)
    {position : Nat}
    {group : NeuronGroup}
    (found : delivering.neuronGroups[position]? = some group) :
    group.size = network.groupSize position := by
  have place := congrArg (·[position]?) of.sizes
  simp only [List.getElem?_map, found, Option.map_some] at place
  obtain ⟨before, foundBefore, same⟩ := Option.map_eq_some_iff.mp place.symm
  rw [groupSize, foundBefore]
  exact same.symm

/-- An item of a list in which one has been changed is an old item or the changed one. -/
theorem mem_modify
    {items : List α}
    {position : Nat}
    {change : α → α}
    {item : α}
    (member : item ∈ items.modify position change) :
    item ∈ items ∨ ∃ before, items[position]? = some before ∧ item = change before := by
  obtain ⟨other, found⟩ := List.mem_iff_getElem?.mp member
  rw [List.getElem?_modify] at found
  by_cases same : position = other
  · obtain ⟨before, place, rfl⟩ := Option.map_eq_some_iff.mp found
    exact .inr ⟨before, same ▸ place, if_pos same⟩
  · obtain ⟨before, place, rfl⟩ := Option.map_eq_some_iff.mp found
    rw [if_neg same]
    exact .inl (List.mem_of_getElem? place)

/-- The neuron groups still hold nothing but the transmissions so far after one more of them. -/
theorem Delivering.Of.add
    (of : delivering.Of network)
    {transmission : List Delivery × SynapseGroup}
    (areWeights : ∀ delivery ∈ transmission.1, delivery.IsWeight) :
    (delivering.add transmission).Of network := by
  constructor
  · rw [← of.sizes]
    apply List.ext_getElem?
    intro position
    rw [List.getElem?_map, List.getElem?_map, Delivering.add, List.getElem?_modify]
    cases delivering.neuronGroups[position]? with
    | none => rfl
    | some group =>
        by_cases same : transmission.2.target = position
        · simp [same, NeuronGroup.addInputs, NeuronGroup.size]
        · simp [same]
  · intro group member
    rcases mem_modify member with old | ⟨before, found, rfl⟩
    · exact of.fitted group old
    · exact (of.fitted before (List.mem_of_getElem? found)).addInputs _
  · intro group member
    rcases mem_modify member with old | ⟨before, found, rfl⟩
    · exact (of.collected group old).mono (Nat.le_add_right _ _)
    · exact (of.collected before (List.mem_of_getElem? found)).addAll areWeights

/-- The deliveries of a group that is ready are actual weights. -/
theorem Placed.areWeights
    {group : SynapseGroup}
    (placed : network.Placed group) :
    ∀ delivery ∈ (network.transmission group).1, delivery.IsWeight := by
  rw [transmission, SynapseGroup.transmit_eq]
  exact SynapseGroup.areWeights_filterMap placed.ready.areWeights _

/-- One more synapse group transmits without failure as long as few spikes are delivered. -/
theorem Delivering.Of.deliverGuarded_eq
    (of : delivering.Of network)
    {group : SynapseGroup}
    (placed : network.Placed group)
    (few : delivering.transmissions + (network.transmission group).1.length <
      transmissionLimit) :
    network.deliverGuarded delivering group =
      .ok (delivering.add (network.transmission group)) := by
  have inside : group.target < delivering.neuronGroups.length := by
    have sameLength := congrArg List.length of.sizes
    rw [List.length_map, List.length_map] at sameLength
    rw [sameLength]
    exact placed.target
  obtain ⟨target, found⟩ : ∃ target, delivering.neuronGroups[group.target]? = some target :=
    ⟨_, List.getElem?_eq_getElem inside⟩
  have member := List.mem_of_getElem? found
  have places : target.input.size = network.groupSize group.target :=
    (of.fitted target member).trans (of.size_eq found)
  have reach : group.params.delay < group.inFlight.length := by
    have reach : group.inFlight.length = group.params.delay + 1 := placed.ready.supported.reach
    omega
  have transmits := SynapseGroup.transmitGuarded_eq placed.ready.supported.indexed reach
    placed.ready.areWeights (of.collected target member) (network.lastSpikes group.source)
  rw [places] at transmits
  unfold deliverGuarded
  rw [bind_of_eq_ok (lastSpikesGuarded_eq placed.source),
    bind_of_eq_ok (Guard.itemAt_of_some found), bind_of_eq_ok (transmits few)]
  have written := Guard.set_eq_modify found (·.addInputs (network.transmission group).1)
  exact congrArg (fun neuronGroups => Except.ok (Delivering.mk neuronGroups _ _)) written

/-- Synapse groups transmit without failure as long as few spikes are delivered. -/
theorem Delivering.Of.foldlM_deliverGuarded
    (of : delivering.Of network)
    {groups : List SynapseGroup}
    (placed : ∀ group ∈ groups, network.Placed group)
    (few : delivering.transmissions +
      tally (·.1.length) (groups.map network.transmission) < transmissionLimit) :
    groups.foldlM network.deliverGuarded delivering =
        .ok ((groups.map network.transmission).foldl Delivering.add delivering) ∧
      ((groups.map network.transmission).foldl Delivering.add delivering).Of network := by
  induction groups generalizing delivering with
  | nil => exact ⟨rfl, of⟩
  | cons group rest inductionHypothesis =>
      obtain ⟨here, later⟩ := List.forall_mem_cons.mp placed
      rw [List.map_cons, tally_cons] at few
      -- The count never falls, so what is few in the end is few at every group.
      rw [List.foldlM_cons, bind_of_eq_ok (of.deliverGuarded_eq here (by omega))]
      refine inductionHypothesis (of.add here.areWeights) later ?_
      show delivering.transmissions + (network.transmission group).1.length + _ < _
      omega

theorem Sane.emit (sane : network.Sane) (time : Nat) : (network.emit time).Sane := by
  refine ⟨?_, ⟨sane.atRest.inputs, sane.atRest.settled⟩,
    ⟨sane.inRange.neurons, sane.inRange.synapses⟩⟩
  rw [layout_emit]
  exact sane.sound

/-- Every synapse group of a sane network is ready and finds its source and its target. -/
theorem Sane.placed
    (sane : network.Sane)
    {group : SynapseGroup}
    (member : group ∈ network.synapseGroups) :
    network.Placed group := by
  have sound := sane.sound
  have settled := sane.atRest.settled group member
  have memberWiring : group.wiring ∈ network.layout.wirings := List.mem_map_of_mem member
  refine ⟨⟨?_, sane.inRange.synapses group member, ?_, ?_⟩, sound.source _ memberWiring,
    (sound.post_lt_groupSize member).1⟩
  · exact ⟨sound.synapses _ memberWiring, sound.indexed _ memberWiring,
      sound.reach _ memberWiring, fun rule present =>
        LearningRule.inWords_of_parse (sound.rule _ memberWiring rule present)⟩
  · simp [settled.touched]
  · simp [settled.pending]

theorem emitGuarded_eq (network : Network) (time : Nat) :
    network.emitGuarded time = .ok (network.emit time) := by
  unfold emitGuarded
  rw [bind_of_eq_ok (mapM_eq_ok_map fun source _ => source.emitGuarded_eq time)]
  rfl

/-- The groups and the number of transmissions after all synapse groups have transmitted. -/
def deliverAll (network : Network) : Delivering :=
  { neuronGroups := receive network.neuronGroups network.transmissions
    synapseGroups := network.transmissions.map (·.2)
    transmissions := tally (·.1.length) network.transmissions }

/-- The synapse groups of a sane network transmit without failure as long as few spikes are
delivered, and the neurons collect nothing else. -/
theorem Sane.deliverAllGuarded_eq
    (sane : network.Sane)
    (few : network.deliverAll.transmissions < transmissionLimit) :
    network.deliverAllGuarded = .ok network.deliverAll ∧ network.deliverAll.Of network := by
  have nothing : Delivering.Of
      { neuronGroups := network.neuronGroups, synapseGroups := [], transmissions := 0 }
      network := by
    refine ⟨rfl, fun group member => (sane.atRest.inputs group member).fitted, ?_⟩
    intro group member
    rw [show group.input = _ from sane.atRest.inputs group member]
    exact Delivery.collected_zero _
  have few : 0 + tally (·.1.length) (network.synapseGroups.map network.transmission) <
      transmissionLimit := by
    rw [Nat.zero_add]
    exact few
  have delivers := nothing.foldlM_deliverGuarded (fun group => sane.placed) few
  rw [Delivering.foldl_add, Nat.zero_add, List.nil_append] at delivers
  exact delivers

end Network

end Neurochip
