import Neurochip.Network.Snapshot
import Neurochip.Proofs.Network.Phases
import Neurochip.Proofs.NeuronGroup.Frame

namespace Neurochip

/-!
# What a network never changes

The layout of a network is everything that is fixed when it is configured: the
parameters and sizes of its neuron groups, the events of its sources, the wiring
of its synapse groups, and how it rounds and divides work.  Between two steps a
network is at rest: no neuron has input and no synapse a mark.  A step and every
change from outside leave the layout alone and the network at rest.
-/

/-- Emitting changes nothing but the last spikes of a source. -/
def SpikeSource.quiet (source : SpikeSource) : SpikeSource :=
  { source with lastSpikes := [] }

namespace Network

/-- Everything about a network that is fixed when it is configured. -/
structure Layout where
  neurons : List (NeuronParams × Nat)
  sources : List SpikeSource
  wirings : List SynapseGroup.Wiring
  rounding : RoundingMode
  threads : Nat

/-- The layout of a network. -/
def layout (network : Network) : Layout :=
  { neurons := network.neuronGroups.map (·.frame)
    sources := network.spikeSources.map (·.quiet)
    wirings := network.synapseGroups.map (·.wiring)
    rounding := network.rounding
    threads := network.threads }

/-- The results of restoring each group from its own part of a snapshot. -/
def Restored
    (restore : α → β → Except Refusal α)
    (groups : List α)
    (parts : List β)
    (results : List α) :
    Prop :=
  List.Forall₂ (fun (group, part) result => restore group part = .ok result)
    (groups.zip parts) results

/-- What restoring keeps of a group is kept for all groups. -/
theorem Restored.map_eq
    {restore : α → β → Except Refusal α}
    {groups results : List α}
    {parts : List β}
    (restored : Restored restore groups parts results)
    (sameLength : groups.length = parts.length)
    {key : α → γ}
    (kept : ∀ group part result, restore group part = .ok result → key result = key group) :
    results.map key = groups.map key := by
  induction groups generalizing parts results with
  | nil =>
      obtain rfl := List.forall₂_nil_left_iff.mp restored
      rfl
  | cons group rest inductionHypothesis =>
      cases parts with
      | nil => cases sameLength
      | cons part parts =>
          cases restored with
          | cons here others =>
              rw [List.map_cons, List.map_cons, kept group part _ here,
                inductionHypothesis others (Nat.succ.inj sameLength)]

/-- Every result of restoring comes from one of the groups. -/
theorem Restored.exists_of_mem
    {restore : α → β → Except Refusal α}
    {groups results : List α}
    {parts : List β}
    (restored : Restored restore groups parts results)
    {result : α}
    (member : result ∈ results) :
    ∃ group ∈ groups, ∃ part, restore group part = .ok result := by
  obtain ⟨position, inside, rfl⟩ := List.mem_iff_getElem.mp member
  have place := List.Forall₂.get restored
  have within : position < (groups.zip parts).length := by
    rwa [List.Forall₂.length_eq restored]
  refine ⟨((groups.zip parts)[position]).1, ?_, ((groups.zip parts)[position]).2,
    place within inside⟩
  exact (List.of_mem_zip (List.getElem_mem within)).1

/-- No neuron has input, no synapse a mark, and no weight change waits to be committed. -/
structure AtRest (network : Network) : Prop where
  inputs : ∀ group ∈ network.neuronGroups, group.AtRest
  settled : ∀ group ∈ network.synapseGroups, group.Settled

/-- The deliveries of all synapse groups to one neuron group, in order. -/
def deliveriesTo
    (target : Nat)
    (transmissions : List (List Delivery × SynapseGroup)) :
    List Delivery :=
  transmissions.flatMap fun (deliveries, synapses) =>
    if synapses.target = target then deliveries else []

/-- The synapse groups with a target deliver to it what they transmit. -/
theorem deliveriesTo_transmissions (network : Network) (target : Nat) :
    deliveriesTo target network.transmissions =
      network.synapseGroups.flatMap fun group =>
        if group.target = target then
          (group.transmit (network.lastSpikes group.source) (network.groupSize group.target)).1
        else
          [] := by
  rw [deliveriesTo, transmissions, List.flatMap_map]
  rfl

/-- What is delivered to a neuron group comes from a synapse group with this target. -/
theorem mem_deliveriesTo
    {target : Nat}
    {transmissions : List (List Delivery × SynapseGroup)}
    {delivery : Delivery} :
    delivery ∈ deliveriesTo target transmissions ↔
      ∃ sent ∈ transmissions, sent.2.target = target ∧ delivery ∈ sent.1 := by
  rw [deliveriesTo, List.mem_flatMap]
  refine exists_congr fun sent => and_congr_right fun _ => ?_
  by_cases same : sent.2.target = target
  · simp [same]
  · simp [same]

@[simp] theorem deliveriesTo_append
    (target : Nat)
    (first second : List (List Delivery × SynapseGroup)) :
    deliveriesTo target (first ++ second) =
      deliveriesTo target first ++ deliveriesTo target second :=
  List.flatMap_append

/-- A synapse group after its transmission matters to the neurons only by its target. -/
theorem deliveriesTo_congr
    {first second : List (List Delivery × SynapseGroup)}
    (same : first.map (fun (deliveries, synapses) => (deliveries, synapses.target)) =
      second.map fun (deliveries, synapses) => (deliveries, synapses.target))
    (target : Nat) :
    deliveriesTo target first = deliveriesTo target second := by
  have byTarget : ∀ transmissions, deliveriesTo target transmissions =
      (transmissions.map fun (deliveries, synapses) => (deliveries, synapses.target)).flatMap
        fun (deliveries, reached) => if reached = target then deliveries else [] := by
    intro transmissions
    rw [List.flatMap_map]
    rfl
  rw [byTarget, byTarget, same]

/-- Each neuron group receives what is delivered to it. -/
theorem getElem?_receive
    (groups : List NeuronGroup)
    (transmissions : List (List Delivery × SynapseGroup))
    (target : Nat) :
    (receive groups transmissions)[target]? =
      groups[target]?.map (·.addInputs (deliveriesTo target transmissions)) := by
  induction transmissions generalizing groups with
  | nil =>
      cases found : groups[target]? <;> simp [receive, deliveriesTo, found]
      rfl
  | cons first rest inductionHypothesis =>
      obtain ⟨deliveries, synapses⟩ := first
      have split : deliveriesTo target ((deliveries, synapses) :: rest) =
          (if synapses.target = target then deliveries else []) ++ deliveriesTo target rest :=
        List.flatMap_cons
      rw [receive, List.foldl_cons, ← receive, inductionHypothesis, List.getElem?_modify, split]
      cases groups[target]? with
      | none => rfl
      | some group =>
          by_cases same : synapses.target = target
          · simp [same, NeuronGroup.addInputs, Delivery.addAll_append]
          · simp [same]

/-- A step updates each neuron group after all deliveries to it. -/
theorem getElem?_neuronGroups_next (network : Network) (time target : Nat) :
    (network.next time).neuronGroups[target]? =
      network.neuronGroups[target]?.map fun group =>
        (group.addInputs (deliveriesTo target (network.emit time).transmissions)).update
          network.rounding := by
  show ((network.received time).map _)[target]? = _
  rw [List.getElem?_map, received, getElem?_receive, Option.map_map]
  rfl

/-- Every group that has received its input was a group of the network before. -/
theorem mem_received
    {network : Network}
    {time : Nat}
    {group : NeuronGroup}
    (member : group ∈ network.received time) :
    ∃ before ∈ network.neuronGroups, ∃ deliveries, group = before.addInputs deliveries := by
  obtain ⟨position, found⟩ := List.mem_iff_getElem?.mp member
  rw [received, getElem?_receive] at found
  obtain ⟨before, place, rfl⟩ := Option.map_eq_some_iff.mp found
  exact ⟨before, List.mem_of_getElem? place, _, rfl⟩

theorem frames_received (network : Network) (time : Nat) :
    (network.received time).map (·.frame) = network.neuronGroups.map (·.frame) := by
  apply List.ext_getElem?
  intro position
  rw [received, List.getElem?_map, List.getElem?_map, getElem?_receive, Option.map_map]
  rfl

@[simp] theorem length_neuronGroups_next (network : Network) (time : Nat) :
    (network.next time).neuronGroups.length = network.neuronGroups.length := by
  simpa [next, halfway, fired] using congrArg List.length (frames_received network time)

/-- In a network at rest, each group that has received its input can be updated. -/
theorem AtRest.fitted_received
    {network : Network}
    (atRest : network.AtRest)
    {time : Nat}
    {group : NeuronGroup}
    (member : group ∈ network.received time) :
    group.Fitted := by
  obtain ⟨before, memberBefore, deliveries, rfl⟩ := mem_received member
  exact (atRest.inputs before memberBefore).fitted.addInputs deliveries

theorem AtRest.frames_fired
    {network : Network}
    (atRest : network.AtRest)
    (time : Nat) :
    (network.fired time).map (·.frame) = network.neuronGroups.map (·.frame) := by
  rw [← frames_received network time, fired, List.map_map]
  exact List.map_congr_left fun group member =>
    (atRest.fitted_received member).frame_update network.rounding

/-- A step leaves the wiring of each synapse group alone. -/
theorem wiring_steppedGroup (network : Network) (time : Nat) (group : SynapseGroup) :
    (network.steppedGroup time group).2.wiring = group.wiring := by
  rw [steppedGroup, SynapseGroup.wiring_stepped]

/-- Emitting leaves the layout alone. -/
theorem layout_emit (network : Network) (time : Nat) :
    (network.emit time).layout = network.layout := by
  simp only [layout, emit, List.map_map]
  rfl

/-- A step leaves the layout alone. -/
theorem AtRest.layout_next
    {network : Network}
    (atRest : network.AtRest)
    (time : Nat) :
    (network.next time).layout = network.layout := by
  have wirings :
      (network.synapseGroups.map fun group => (network.steppedGroup time group).2).map
          (·.wiring) =
        network.synapseGroups.map (·.wiring) := by
    rw [List.map_map]
    refine List.map_congr_left fun group _ => ?_
    rw [Function.comp_apply, wiring_steppedGroup]
  have sources : (network.spikeSources.map (·.emit time)).map (·.quiet) =
      network.spikeSources.map (·.quiet) := by
    rw [List.map_map]
    rfl
  simp only [layout, next, halfway, emit, atRest.frames_fired, wirings, sources]

/-- The indices of all synapse groups belong to their connections. -/
def Layout.Indexed (layout : Layout) : Prop :=
  ∀ wiring ∈ layout.wirings, wiring.Indexed

theorem Layout.Indexed.of_mem
    {network : Network}
    (indexed : network.layout.Indexed)
    {group : SynapseGroup}
    (member : group ∈ network.synapseGroups) :
    group.wiring.Indexed :=
  indexed group.wiring (List.mem_map_of_mem member)

/-- After a step the network is at rest. -/
theorem AtRest.next
    {network : Network}
    (atRest : network.AtRest)
    (time : Nat) :
    (network.next time).AtRest := by
  constructor
  · intro group member
    obtain ⟨before, received, rfl⟩ := List.mem_map.mp member
    exact (atRest.fitted_received received).atRest_update network.rounding
  · intro group member
    obtain ⟨before, memberBefore, rfl⟩ := List.mem_map.mp member
    exact SynapseGroup.settled_stepped (atRest.settled before memberBefore) _ _

/-- Weights are set exactly when the group exists and accepts them. -/
theorem setWeights_eq_ok_iff
    {network after : Network}
    {position : Nat}
    {mantissas : List Int} :
    network.setWeights position mantissas = some (.ok after) ↔
      ∃ group changed, network.synapseGroups[position]? = some group ∧
        group.setWeights mantissas = .ok changed ∧
        { network with synapseGroups := network.synapseGroups.set position changed } = after := by
  simp only [setWeights, Option.map_eq_some_iff, bind_eq_ok_iff, pure_eq_ok_iff]
  constructor
  · rintro ⟨group, found, changed, accepted, same⟩
    exact ⟨group, changed, found, accepted, same⟩
  · rintro ⟨group, changed, found, accepted, same⟩
    exact ⟨group, found, changed, accepted, same⟩

/-- Setting weights leaves the layout alone. -/
theorem layout_setWeights
    {network after : Network}
    {position : Nat}
    {mantissas : List Int}
    (accepted : network.setWeights position mantissas = some (.ok after)) :
    after.layout = network.layout := by
  obtain ⟨group, changed, found, groupAccepted, rfl⟩ := setWeights_eq_ok_iff.mp accepted
  have wirings : (network.synapseGroups.set position changed).map (·.wiring) =
      network.synapseGroups.map (·.wiring) := by
    apply List.ext_getElem?
    intro other
    rw [List.getElem?_map, List.getElem?_map, List.getElem?_set]
    by_cases same : position = other
    · subst same
      obtain ⟨inside, rfl⟩ := List.getElem?_eq_some_iff.mp found
      simp [inside, SynapseGroup.wiring_setWeights groupAccepted]
    · simp [same]
  simp only [layout, wirings]

/-- Setting weights leaves the network at rest. -/
theorem AtRest.setWeights
    {network after : Network}
    (atRest : network.AtRest)
    {position : Nat}
    {mantissas : List Int}
    (accepted : network.setWeights position mantissas = some (.ok after)) :
    after.AtRest := by
  obtain ⟨group, changed, found, groupAccepted, rfl⟩ := setWeights_eq_ok_iff.mp accepted
  refine ⟨atRest.inputs, ?_⟩
  intro other member
  rcases List.mem_or_eq_of_mem_set member with old | rfl
  · exact atRest.settled other old
  · exact (atRest.settled group (List.mem_of_getElem? found)).setWeights groupAccepted

/-- The network with the states of a snapshot, put in place together if every group accepts its
part. -/
def restoreTogether (network : Network) (snapshot : Snapshot) : Except Refusal Network := do
  Refusal.checkLengths .neuronGroups network.neuronGroups.length snapshot.neuronGroups.length
  Refusal.checkLengths .synapseGroups network.synapseGroups.length
    snapshot.synapseGroups.length
  let neuronGroups ← (network.neuronGroups.zip snapshot.neuronGroups).mapM
    fun (group, states) => group.restore states
  let synapseGroups ← (network.synapseGroups.zip snapshot.synapseGroups).mapM
    fun (group, states) => group.restore states
  return { network with neuronGroups := neuronGroups, synapseGroups := synapseGroups }

/-- Groups are written one by one, but only in copies until all of them have accepted their parts. -/
theorem carriesOut_restoreInPlace (snapshot : Snapshot) :
    (restoreInPlace snapshot).CarriesOut (·.restoreTogether snapshot) := by
  intro network
  unfold restoreInPlace restoreTogether
  simp only [Method.call_bind, Method.call_get, Method.call_check, Method.call_modify]
  cases neuronCount : Refusal.checkLengths .neuronGroups network.neuronGroups.length
      snapshot.neuronGroups.length with
  | error refusal => rfl
  | ok _ =>
      cases synapseCount : Refusal.checkLengths .synapseGroups network.synapseGroups.length
          snapshot.synapseGroups.length with
      | error refusal => rfl
      | ok _ =>
          rw [NeuronGroup.inCopies_restoreInPlace (Refusal.checkLengths_eq_ok_iff.mp neuronCount),
            SynapseGroup.inCopies_restoreInPlace (Refusal.checkLengths_eq_ok_iff.mp synapseCount)]
          cases (network.neuronGroups.zip snapshot.neuronGroups).mapM
              fun (group, states) => group.restore states with
          | error refusal => rfl
          | ok neuronGroups =>
              cases (network.synapseGroups.zip snapshot.synapseGroups).mapM
                fun (group, states) => group.restore states <;> rfl

theorem restore_eq_together (network : Network) (snapshot : Snapshot) :
    network.restore snapshot = network.restoreTogether snapshot :=
  (carriesOut_restoreInPlace snapshot).result_eq network

/-- Whatever has been written to copies, a refused snapshot leaves the network as it was. -/
theorem call_restoreInPlace_of_refused
    {network : Network}
    {snapshot : Snapshot}
    {refusal : Refusal}
    (refused : network.restore snapshot = .error refusal) :
    (restoreInPlace snapshot).call network = (.error refusal, network) :=
  (carriesOut_restoreInPlace snapshot).call_of_refused refused

/-- A snapshot is restored exactly when it has a part for each group that the group accepts. -/
theorem restore_eq_ok_iff
    {network after : Network}
    {snapshot : Snapshot} :
    network.restore snapshot = .ok after ↔
      network.neuronGroups.length = snapshot.neuronGroups.length ∧
      network.synapseGroups.length = snapshot.synapseGroups.length ∧
      ∃ neuronGroups synapseGroups,
        Restored NeuronGroup.restore network.neuronGroups snapshot.neuronGroups neuronGroups ∧
        Restored SynapseGroup.restore network.synapseGroups snapshot.synapseGroups
          synapseGroups ∧
        { network with neuronGroups := neuronGroups, synapseGroups := synapseGroups } = after := by
  rw [restore_eq_together, restoreTogether, check_bind_eq_ok_iff, check_bind_eq_ok_iff,
    Refusal.checkLengths_eq_ok_iff, Refusal.checkLengths_eq_ok_iff]
  simp only [bind_eq_ok_iff, mapM_eq_ok_iff, pure_eq_ok_iff]
  refine and_congr_right fun _ => and_congr_right fun _ => ⟨?_, ?_⟩
  · rintro ⟨neuronGroups, neurons, synapseGroups, synapses, same⟩
    exact ⟨neuronGroups, synapseGroups, neurons, synapses, same⟩
  · rintro ⟨neuronGroups, synapseGroups, neurons, synapses, same⟩
    exact ⟨neuronGroups, neurons, synapseGroups, synapses, same⟩

/-- Restoring a snapshot leaves the layout alone. -/
theorem layout_restore
    {network after : Network}
    {snapshot : Snapshot}
    (accepted : network.restore snapshot = .ok after) :
    after.layout = network.layout := by
  obtain ⟨neuronLengths, synapseLengths, neuronGroups, synapseGroups, neurons, synapses, rfl⟩ :=
    restore_eq_ok_iff.mp accepted
  have frames := neurons.map_eq neuronLengths fun _ _ _ => NeuronGroup.frame_restore
  have wirings := synapses.map_eq synapseLengths fun _ _ _ => SynapseGroup.wiring_restore
  simp only [layout, frames, wirings]

/-- Restoring a snapshot leaves the network at rest. -/
theorem AtRest.restore
    {network after : Network}
    (atRest : network.AtRest)
    {snapshot : Snapshot}
    (accepted : network.restore snapshot = .ok after) :
    after.AtRest := by
  obtain ⟨_, _, neuronGroups, synapseGroups, neurons, synapses, rfl⟩ :=
    restore_eq_ok_iff.mp accepted
  constructor
  · intro group member
    obtain ⟨before, memberBefore, states, restored⟩ := neurons.exists_of_mem member
    exact (atRest.inputs before memberBefore).fitted.atRest_restore restored
  · intro group member
    obtain ⟨before, memberBefore, states, restored⟩ := synapses.exists_of_mem member
    exact (atRest.settled before memberBefore).restore restored

end Network

end Neurochip
