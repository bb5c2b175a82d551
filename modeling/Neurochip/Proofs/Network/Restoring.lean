import Neurochip.Proofs.Network.Configured
import Neurochip.Proofs.NeuronGroup.Registers
import Neurochip.Proofs.SynapseGroup.Registers

namespace Neurochip

/-!
# A network takes back its own snapshot

Every phase of a step and every change from outside leaves all registers in the
ranges that a snapshot has to respect.  Therefore a network accepts its own
snapshot wherever calls have led, and the snapshot afterwards is the same.
-/

namespace Network

/-- All registers of a network are in range. -/
structure InRange (network : Network) : Prop where
  neurons : ∀ group ∈ network.neuronGroups, group.InRange
  synapses : ∀ group ∈ network.synapseGroups, group.InRange

variable {network after : Network}

theorem Layout.Sound.neurons_of_mem
    (sound : network.layout.Sound)
    {group : NeuronGroup}
    (member : group ∈ network.neuronGroups) :
    group.params.Acceptable :=
  sound.neurons group.frame (List.mem_map_of_mem member)

/-- The registers of a configured network are in range. -/
theorem inRange_of_configure
    {processors : Nat}
    {params : NetworkParams}
    (accepted : configure processors params = .ok network) :
    network.InRange := by
  obtain ⟨_, _, built⟩ := configure_eq_ok_iff.mp accepted
  obtain ⟨_, _, _, neurons, _, synapses, rfl⟩ := ofParams_eq_ok_iff.mp built
  constructor
  · intro group member
    obtain ⟨entry, _, created⟩ := exists_of_mem_forall₂ neurons member
    obtain ⟨_, rfl⟩ := NeuronGroup.create_eq_ok_iff.mp created
    exact NeuronGroup.inRange_atRest _ _ _
  · intro group member
    obtain ⟨entry, _, created⟩ := exists_of_mem_forall₂ synapses member
    obtain ⟨_, _, rule, _, rfl⟩ := SynapseGroup.create_eq_ok_iff.mp created
    exact SynapseGroup.inRange_atRest _ _ _

/-- A step leaves all registers in range. -/
theorem InRange.next
    (inRange : network.InRange)
    (sound : network.layout.Sound)
    (atRest : network.AtRest)
    (time : Nat) :
    (network.next time).InRange := by
  constructor
  · intro group member
    obtain ⟨received, memberReceived, rfl⟩ := List.mem_map.mp member
    obtain ⟨before, memberBefore, deliveries, rfl⟩ := mem_received memberReceived
    have acceptable : before.params.Acceptable := sound.neurons_of_mem memberBefore
    have withInput : (before.addInputs deliveries).InRange := inRange.neurons before memberBefore
    exact withInput.update acceptable network.rounding
  · intro group member
    obtain ⟨before, memberBefore, rfl⟩ := List.mem_map.mp member
    exact (inRange.synapses before memberBefore).stepped (sound.indexed.of_mem memberBefore)
      (atRest.settled before memberBefore) _ _

/-- Setting weights leaves all registers in range. -/
theorem InRange.setWeights
    (inRange : network.InRange)
    {position : Nat}
    {mantissas : List Int}
    (accepted : network.setWeights position mantissas = some (.ok after)) :
    after.InRange := by
  obtain ⟨group, changed, found, groupAccepted, rfl⟩ := setWeights_eq_ok_iff.mp accepted
  refine ⟨inRange.neurons, ?_⟩
  intro other member
  rcases List.mem_or_eq_of_mem_set member with old | rfl
  · exact inRange.synapses other old
  · exact (inRange.synapses group (List.mem_of_getElem? found)).setWeights groupAccepted

/-- Restored registers are in range. -/
theorem inRange_restore
    {snapshot : Snapshot}
    (accepted : network.restore snapshot = .ok after) :
    after.InRange := by
  obtain ⟨_, _, neuronGroups, synapseGroups, neurons, synapses, rfl⟩ :=
    restore_eq_ok_iff.mp accepted
  constructor
  · intro group member
    obtain ⟨before, _, states, restored⟩ := neurons.exists_of_mem member
    exact NeuronGroup.inRange_restore restored
  · intro group member
    obtain ⟨before, _, states, restored⟩ := synapses.exists_of_mem member
    exact SynapseGroup.inRange_restore restored

/-- What holds of every network between two calls: its parts fit together, it is at rest, and its
registers are in range. -/
structure Sane (network : Network) : Prop where
  sound : network.layout.Sound
  atRest : network.AtRest
  inRange : network.InRange

/-- A configured network is sane. -/
theorem sane_of_configure
    {processors : Nat}
    {params : NetworkParams}
    (accepted : configure processors params = .ok network) :
    network.Sane :=
  ⟨sound_of_configure accepted, atRest_of_configure accepted, inRange_of_configure accepted⟩

/-- A step leaves a network sane. -/
theorem Sane.next (sane : network.Sane) (time : Nat) : (network.next time).Sane := by
  refine ⟨?_, sane.atRest.next time,
    sane.inRange.next sane.sound sane.atRest time⟩
  rw [sane.atRest.layout_next time]
  exact sane.sound

/-- Setting weights leaves a network sane. -/
theorem Sane.of_setWeights
    (sane : network.Sane)
    {position : Nat}
    {mantissas : List Int}
    (accepted : network.setWeights position mantissas = some (.ok after)) :
    after.Sane :=
  ⟨by rw [layout_setWeights accepted]; exact sane.sound, sane.atRest.setWeights accepted,
    sane.inRange.setWeights accepted⟩

/-- Restoring a snapshot leaves a network sane. -/
theorem Sane.of_restore
    (sane : network.Sane)
    {snapshot : Snapshot}
    (restored : network.restore snapshot = .ok after) :
    after.Sane :=
  ⟨by rw [layout_restore restored]; exact sane.sound, sane.atRest.restore restored,
    inRange_restore restored⟩

/-- Whatever is called, a network stays sane. -/
theorem Sane.performAll (sane : network.Sane) (calls : List Call) :
    (network.performAll calls).2.Sane := by
  refine performAll_induction (fun _ after => after.Sane) ?_ ?_ (fun snapshot _ => ?_) [] sane
  · intro history before time sane
    exact sane.next time
  · intro history before group mantissas after sane set
    exact sane.of_setWeights set
  · intro history before after sane restored
    exact sane.of_restore restored

/-- Wherever calls have led, a network is sane. -/
theorem Reachable.sane
    {processors : Nat}
    {params : NetworkParams}
    (reachable : Reachable processors params network) :
    network.Sane := by
  obtain ⟨start, calls, accepted, rfl⟩ := reachable
  exact (sane_of_configure accepted).performAll calls

/-- Groups that accept a part of their own are restored from it. -/
theorem restored_of_own
    {restore : α → β → Except Refusal α}
    {part : α → β}
    {result : α → α}
    {groups : List α}
    (each : ∀ group ∈ groups, restore group (part group) = .ok (result group)) :
    Restored restore groups (groups.map part) (groups.map result) := by
  induction groups with
  | nil => exact .nil
  | cons group rest inductionHypothesis =>
      exact .cons (each group List.mem_cons_self)
        (inductionHypothesis fun other member => each other (List.mem_cons_of_mem _ member))

/-- Wherever calls have led, a network takes back its own snapshot, which is then unchanged. -/
theorem restore_snapshot
    {processors : Nat}
    {params : NetworkParams}
    {network : Network}
    (reachable : Reachable processors params network) :
    ∃ after, network.restore network.snapshot = .ok after ∧
      after.snapshot = network.snapshot := by
  have inRange := reachable.sane.inRange
  have neurons : Restored NeuronGroup.restore network.neuronGroups
      (network.neuronGroups.map (·.states))
      (network.neuronGroups.map fun group => group.withStates group.states) :=
    restored_of_own fun group member => (inRange.neurons group member).restore_states
  have synapses : Restored SynapseGroup.restore network.synapseGroups
      (network.synapseGroups.map (·.states)) (network.synapseGroups.map id) :=
    restored_of_own fun group member => (inRange.synapses group member).restore_states
  -- Restoring forgets the last spikes of neurons, which are no part of a snapshot.
  refine ⟨_, restore_eq_ok_iff.mpr ⟨?_, ?_, _, _, neurons, synapses, rfl⟩, ?_⟩
  · simp [snapshot]
  · simp [snapshot]
  · simp [snapshot, NeuronGroup.withStates, Function.comp_def]

/-- The pair of neurons takes back its own snapshot after a step and a restored snapshot. -/
theorem restore_snapshot_pair :
    ∃ network, Reachable 1 .pair network ∧
      ∃ after, network.restore network.snapshot = .ok after ∧
        after.snapshot = network.snapshot := by
  obtain ⟨start, accepted⟩ := exists_configure_pair
  have reachable : Reachable 1 .pair
      (start.performAll [.step 0, .restore start.snapshot, .run 2]).2 :=
    ⟨start, _, accepted, rfl⟩
  exact ⟨_, reachable, restore_snapshot reachable⟩

end Network

end Neurochip
