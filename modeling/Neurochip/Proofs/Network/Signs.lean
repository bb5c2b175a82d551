import Neurochip.Proofs.Network.Delivery
import Neurochip.Proofs.Network.Restoring
import Neurochip.Proofs.NeuronGroup.Signs

namespace Neurochip

/-!
# Excitation and inhibition over whole runs

A neuron group that is reached by synapses of one sign only stays on the side of
this sign, whatever is learned, however weights are set and for however long the
network is stepped; and where the sign is inhibitory, no neuron of it ever
reaches a positive threshold.  Restored snapshots are left out, because a saved
voltage may have any sign.
-/

variable {mode : SignMode}

/-- Amounts on one side of zero add up to an amount on this side. -/
theorem SignMode.Admits.balance
    {amount : α → Int}
    {items : List α}
    (each : ∀ item ∈ items, mode.Admits (amount item)) :
    mode.Admits (balance amount items) := by
  induction items with
  | nil => exact admits_zero
  | cons item rest inductionHypothesis =>
      obtain ⟨here, others⟩ := List.forall_mem_cons.mp each
      rw [balance_cons]
      exact here.add (inductionHypothesis others)

/-- A group at rest has collected input of a sign after deliveries of this sign. -/
theorem NeuronGroup.AtRest.receives_addInputs
    {group : NeuronGroup}
    (atRest : group.AtRest)
    {deliveries : List Delivery}
    (each : ∀ delivery ∈ deliveries, mode.Admits delivery.amount) :
    (group.addInputs deliveries).Receives mode := by
  intro input member
  obtain ⟨neuron, place⟩ := List.mem_iff_getElem?.mp member
  rw [Array.getElem?_toList, addInputs, Delivery.getElem?_addAll,
    show group.input = _ from atRest] at place
  obtain ⟨before, found, rfl⟩ := Option.map_eq_some_iff.mp place
  have nothing : before = 0 := by
    rw [Array.getElem?_replicate] at found
    split at found
    · exact (Option.some.inj found).symm
    · cases found
  rw [nothing, Int.zero_add]
  exact .balance fun delivery delivered => each delivery (List.mem_filter.mp delivered).1

/-- What a group with stored weights delivers is on the side of its sign. -/
theorem SynapseGroup.InRange.admits_transmit
    {group : SynapseGroup}
    (inRange : group.InRange)
    (acceptable : group.params.Acceptable)
    (spikes : List Nat)
    (targets : Nat) :
    ∀ delivery ∈ (group.transmit spikes targets).1,
      group.params.signMode.Admits delivery.amount := by
  intro delivery member
  rw [transmit_eq] at member
  obtain ⟨position, _, delivers⟩ := List.mem_filterMap.mp member
  obtain ⟨synapse, found, rfl⟩ := Option.map_eq_some_iff.mp delivers
  have stores : group.quantizer.Stores synapse.weight :=
    Quantizer.stores_of_quantize_eq acceptable.weightExponent
      (inRange synapse (mem_toList_of_getElem? found)).stored
  exact ⟨fun excitatory => (stores.excitatory excitatory).2,
    fun inhibitory => (stores.inhibitory inhibitory).2⟩

namespace Network

/-- All synapse groups onto a neuron group have a sign. -/
def Layout.ReachedBy (layout : Layout) (target : Nat) (mode : SignMode) : Prop :=
  ∀ wiring ∈ layout.wirings, wiring.target = target → wiring.params.signMode = mode

/-- All that is delivered to a group is on the side of the sign of its synapses. -/
theorem Sane.admits_deliveriesTo
    {network : Network}
    (sane : network.Sane)
    {target : Nat}
    (reached : network.layout.ReachedBy target mode)
    (time : Nat) :
    ∀ delivery ∈ deliveriesTo target (network.emit time).transmissions,
      mode.Admits delivery.amount := by
  intro delivery member
  obtain ⟨_, sent, aimed, delivered⟩ := mem_deliveriesTo.mp member
  obtain ⟨group, memberGroup, rfl⟩ := List.mem_map.mp sent
  have memberWiring := List.mem_map_of_mem (f := SynapseGroup.wiring) memberGroup
  rw [← reached group.wiring memberWiring aimed]
  exact (sane.inRange.synapses group memberGroup).admits_transmit
    (sane.sound.synapses group.wiring memberWiring) _ _ delivery delivered

/-- The group at a place in a layout. -/
theorem exists_group_of_layout
    {network : Network}
    {target : Nat}
    {frame : NeuronParams × Nat}
    (placed : network.layout.neurons[target]? = some frame) :
    ∃ group, network.neuronGroups[target]? = some group ∧ group.frame = frame := by
  rw [layout, List.getElem?_map] at placed
  exact Option.map_eq_some_iff.mp placed

/-- A neuron group stays on the side of a sign, and its neurons have not spiked if the sign is
inhibitory and their threshold positive. -/
structure KeepsSign
    (mode : SignMode)
    (target : Nat)
    (frame : NeuronParams × Nat)
    (history : List StepReport)
    (network : Network) :
    Prop where
  sane : network.Sane
  reached : network.layout.ReachedBy target mode
  placed : network.layout.neurons[target]? = some frame
  signed : ∀ group, network.neuronGroups[target]? = some group → group.Signed mode
  silent : mode = .inhibitory → 1 ≤ frame.1.thresholdMantissa →
    ∀ report ∈ history, report.indicesFor (.neuronGroup target) = some []

variable {target : Nat} {frame : NeuronParams × Nat}

/-- A step keeps the sign of a group. -/
theorem KeepsSign.next
    {history : List StepReport}
    {network : Network}
    (keeps : KeepsSign mode target frame history network)
    (time : Nat) :
    KeepsSign mode target frame (history ++ [network.reportOf time]) (network.next time) := by
  have sane := keeps.sane
  have sameLayout := sane.atRest.layout_next time
  obtain ⟨group, found, rfl⟩ := exists_group_of_layout keeps.placed
  have member := List.mem_of_getElem? found
  have acceptable : group.params.Acceptable := sane.sound.neurons_of_mem member
  have receives := (sane.atRest.inputs group member).receives_addInputs
    (sane.admits_deliveriesTo keeps.reached time)
  have fired : (network.next time).neuronGroups[target]? =
      some ((group.addInputs (deliveriesTo target (network.emit time).transmissions)).update
        network.rounding) := by
    rw [getElem?_neuronGroups_next, found, Option.map_some]
  generalize deliveriesTo target (network.emit time).transmissions = deliveries
    at receives fired
  have signed : (group.addInputs deliveries).Signed mode := keeps.signed group found
  refine
    { sane := sane.next time
      reached := by rw [sameLayout]; exact keeps.reached
      placed := by rw [sameLayout]; exact keeps.placed
      signed := ?_
      silent := ?_ }
  · intro after place
    rw [fired] at place
    obtain rfl := Option.some.inj place
    exact signed.update receives acceptable network.rounding
  · rintro rfl positive report memberReport
    rcases List.mem_append.mp memberReport with earlier | last
    · exact keeps.silent rfl positive report earlier
    · have quiet := signed.lastSpikes_update receives acceptable positive network.rounding
      rw [List.mem_singleton.mp last, indicesFor_reportOf_neuronGroup, fired, Option.map_some,
        quiet]

/-- Setting weights keeps the sign of a group. -/
theorem KeepsSign.setWeights
    {history : List StepReport}
    {network after : Network}
    (keeps : KeepsSign mode target frame history network)
    {position : Nat}
    {mantissas : List Int}
    (accepted : network.setWeights position mantissas = some (.ok after)) :
    KeepsSign mode target frame history after := by
  have sameLayout := layout_setWeights accepted
  have signed := keeps.signed
  refine
    { sane := keeps.sane.of_setWeights accepted
      reached := by rw [sameLayout]; exact keeps.reached
      placed := by rw [sameLayout]; exact keeps.placed
      signed := ?_
      silent := keeps.silent }
  obtain ⟨group, changed, _, _, rfl⟩ := setWeights_eq_ok_iff.mp accepted
  exact signed

/-- Without restored snapshots a group keeps its sign, wherever calls have led. -/
theorem KeepsSign.performAll
    {start : Network}
    (keeps : KeepsSign mode target frame [] start)
    {calls : List Call}
    (unrestored : ∀ snapshot, Call.restore snapshot ∉ calls) :
    KeepsSign mode target frame (start.performAll calls).1 (start.performAll calls).2 :=
  performAll_induction (KeepsSign mode target frame)
    (fun _ _ time keeps => keeps.next time)
    (fun _ _ _ _ _ keeps accepted => keeps.setWeights accepted)
    (fun snapshot member => absurd member (unrestored snapshot)) [] keeps

end Network

/-- All synapse groups onto a neuron group are described with a sign. -/
def NetworkParams.ReachedBy (params : NetworkParams) (target : Nat) (mode : SignMode) : Prop :=
  ∀ group ∈ params.synapseGroups, group.target = target → group.synapse.signMode = mode

namespace Network

variable {processors : Nat} {params : NetworkParams} {start : Network}

/-- A described neuron group has its place in the layout. -/
theorem getElem?_neurons_of_configure
    (accepted : configure processors params = .ok start)
    {target : Nat}
    {described : NeuronGroupParams}
    (found : params.neuronGroups[target]? = some described) :
    start.layout.neurons[target]? = some (described.neuron, described.size) := by
  obtain ⟨_, _, built⟩ := configure_eq_ok_iff.mp accepted
  rw [frames_ofParams built, List.getElem?_map, found]
  rfl

/-- The neurons of a configured network are at rest. -/
theorem keepsSign_of_configure
    (accepted : configure processors params = .ok start)
    {target : Nat}
    {described : NeuronGroupParams}
    (found : params.neuronGroups[target]? = some described)
    (reached : params.ReachedBy target mode) :
    KeepsSign mode target (described.neuron, described.size) [] start := by
  have sane := sane_of_configure accepted
  have placed := getElem?_neurons_of_configure accepted found
  obtain ⟨_, _, built⟩ := configure_eq_ok_iff.mp accepted
  refine ⟨sane, ?_, placed, ?_, by simp⟩
  · intro wiring member
    obtain ⟨group, memberParams, rule, generator, _, rfl⟩ := exists_of_mem_wirings built member
    exact reached group memberParams
  · intro group place
    obtain ⟨_, _, _, neurons, _, _, rfl⟩ := ofParams_eq_ok_iff.mp built
    obtain ⟨entry, _, created⟩ := exists_of_mem_forall₂ neurons (List.mem_of_getElem? place)
    obtain ⟨_, rfl⟩ := NeuronGroup.create_eq_ok_iff.mp created
    exact NeuronGroup.signed_atRest _ _ _

/-- Without restored snapshots, voltages and currents of a neuron group are never negative if all
synapses onto it are excitatory, and never positive if all are inhibitory; in the second case none
of its neurons ever spikes, unless the threshold is zero. -/
theorem registers_keep_sign
    (accepted : configure processors params = .ok start)
    {calls : List Call}
    (unrestored : ∀ snapshot, Call.restore snapshot ∉ calls)
    {target : Nat}
    {described : NeuronGroupParams}
    (found : params.neuronGroups[target]? = some described) :
    ∃ group, (start.performAll calls).2.neuronGroups[target]? = some group ∧
      group.size = described.size ∧
      (params.ReachedBy target .excitatory →
        ∀ state ∈ group.states, 0 ≤ state.voltage ∧ 0 ≤ state.current) ∧
      (params.ReachedBy target .inhibitory →
        (∀ state ∈ group.states, state.voltage ≤ 0 ∧ state.current ≤ 0) ∧
        (1 ≤ described.neuron.thresholdMantissa →
          ∀ report ∈ (start.performAll calls).1,
            report.indicesFor (.neuronGroup target) = some [])) := by
  have placed := getElem?_neurons_of_configure accepted found
  rw [← (layout_performAll accepted calls).1] at placed
  obtain ⟨group, place, frame⟩ := exists_group_of_layout placed
  refine ⟨group, place, congrArg Prod.snd frame, ?_, ?_⟩
  · intro excitatory
    have keeps := (keepsSign_of_configure accepted found excitatory).performAll unrestored
    intro state member
    obtain ⟨voltage, current⟩ := keeps.signed group place state member
    exact ⟨voltage.excitatory rfl, current.excitatory rfl⟩
  · intro inhibitory
    have keeps := (keepsSign_of_configure accepted found inhibitory).performAll unrestored
    refine ⟨fun state member => ?_, keeps.silent rfl⟩
    obtain ⟨voltage, current⟩ := keeps.signed group place state member
    exact ⟨voltage.inhibitory rfl, current.inhibitory rfl⟩

end Network

/-- A source that excites one neuron group, by synapses that learn, and inhibits another one. -/
def NetworkParams.antagonists : NetworkParams :=
  { neuronGroups := [{ size := 2 }, { size := 1, neuron := { thresholdMantissa := 1 } }]
    spikeSources := [{ size := 1, indices := [0], times := [0] }]
    synapseGroups :=
      [.learning,
        { source := .spikeSource 0
          target := 1
          connections := [{ pre := 0, post := 0, weight := -20 }]
          synapse := { signMode := .inhibitory } }] }

namespace Network

/-- Wherever steps and new weights lead, the excited neurons of the antagonists have no negative
voltage, and the inhibited one is silent. -/
theorem registers_keep_sign_antagonists :
    ∃ start, configure 1 .antagonists = .ok start ∧
      (∃ group,
        (start.performAll [.step 0, .setWeights 0 [0, 255], .run 3]).2.neuronGroups[0]? =
          some group ∧
        ∀ state ∈ group.states, 0 ≤ state.voltage ∧ 0 ≤ state.current) ∧
      ∀ report ∈ (start.performAll [.step 0, .setWeights 0 [0, 255], .run 3]).1,
        report.indicesFor (.neuronGroup 1) = some [] := by
  have parsed : ∀ group ∈ NetworkParams.antagonists.synapseGroups,
      ∃ rule, LearningRule.parse? group.synapse.learningRule = .ok rule := by
    intro group member
    simp only [NetworkParams.antagonists, List.mem_cons, List.not_mem_nil, or_false] at member
    rcases member with rfl | rfl
    · exact ⟨_, SynapseGroupParams.parse_learning⟩
    · exact ⟨none, by decide +kernel⟩
  obtain ⟨start, accepted⟩ :=
    @exists_configure 1 NetworkParams.antagonists rfl (by decide +kernel) parsed
  have unrestored : ∀ snapshot,
      Call.restore snapshot ∉ [Call.step 0, .setWeights 0 [0, 255], .run 3] := by
    simp
  have first : NetworkParams.antagonists.neuronGroups[0]? = some { size := 2 } := rfl
  have second : NetworkParams.antagonists.neuronGroups[1]? =
      some { size := 1, neuron := { thresholdMantissa := 1 } } := rfl
  obtain ⟨excited, place, _, nonnegative, _⟩ := registers_keep_sign accepted unrestored first
  obtain ⟨_, _, _, _, inhibited⟩ := registers_keep_sign accepted unrestored second
  refine ⟨start, accepted, ⟨excited, place, nonnegative ?_⟩, (inhibited ?_).2 (by decide)⟩
  · simp [NetworkParams.ReachedBy, NetworkParams.antagonists, SynapseGroupParams.learning]
  · simp [NetworkParams.ReachedBy, NetworkParams.antagonists, SynapseGroupParams.learning]

end Network

end Neurochip
