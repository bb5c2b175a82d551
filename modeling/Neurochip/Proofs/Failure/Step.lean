import Neurochip.Proofs.Failure.Delivery
import Neurochip.Proofs.Failure.NeuronGroup
import Neurochip.Proofs.Failure.Partition

namespace Neurochip

/-!
# A step of a network does not fail

Every phase leaves the synapse groups ready for the phase after it.  Between
delivery and update the neurons hold inputs that they can take up, because few
spikes have been delivered.
-/

namespace StepProgress

/-- The sources emit, all spikes enter their delay lines, and those that arrive become input. -/
def deliverSpikesGuarded (progress : StepProgress) : Except Failure StepProgress := do
  let network ← progress.network.emitGuarded progress.report.time
  let delivered ← network.deliverAllGuarded
  return {
    network :=
      { network with
        neuronGroups := delivered.neuronGroups
        synapseGroups := delivered.synapseGroups }
    report :=
      { progress.report with
        spikes := progress.report.spikes ++ network.emittedSpikes
        transmissions := delivered.transmissions } }

/-- All neurons take up their input. -/
def updateNeuronsGuarded (progress : StepProgress) : Except Failure StepProgress := do
  let network := progress.network
  let neuronGroups ←
    Partition.mapGuarded network.threads (·.updateGuarded network.rounding) network.neuronGroups
  let updated := { network with neuronGroups := neuronGroups }
  return {
    network := updated
    report :=
      { progress.report with spikes := progress.report.spikes ++ updated.firedSpikes } }

/-- All traces decay and take up the spikes of this step. -/
def updateTracesGuarded (progress : StepProgress) : Except Failure StepProgress := do
  let network := progress.network
  let synapseGroups ← Partition.mapGuarded network.threads
    (fun group => do
      let target ← Guard.itemAt network.neuronGroups group.target
      group.updateTracesGuarded target.lastSpikes network.rounding)
    network.synapseGroups
  return { progress with network := { network with synapseGroups := synapseGroups } }

/-- The learning rules ask for weight changes. -/
def learnGuarded (progress : StepProgress) : Except Failure StepProgress := do
  let network := progress.network
  let synapseGroups ←
    Partition.mapGuarded network.threads (·.learnGuarded) network.synapseGroups
  return { progress with network := { network with synapseGroups := synapseGroups } }

/-- The weight changes are committed. -/
def commitWeightsGuarded (progress : StepProgress) : Except Failure StepProgress := do
  let network := progress.network
  let committed ←
    Partition.mapGuarded network.threads (·.commitGuarded network.rounding) network.synapseGroups
  return {
    network := { network with synapseGroups := committed.map (·.2) }
    report := { progress.report with weightUpdates := tally (·.1) committed } }

/-- Runs one phase. -/
def runGuarded (progress : StepProgress) : Phase → Except Failure StepProgress
  | .spikeDelivery => progress.deliverSpikesGuarded
  | .neuronUpdate => progress.updateNeuronsGuarded
  | .traceUpdate => progress.updateTracesGuarded
  | .learningUpdate => progress.learnGuarded
  | .weightCommit => progress.commitWeightsGuarded

end StepProgress

namespace Network

/-- The network and the report after all phases of a step. -/
def runPhasesGuarded (network : Network) (time : Nat) : Except Failure StepProgress :=
  Phase.pipeline.foldlM StepProgress.runGuarded { network := network, report := .atTime time }

/-- One step at a time after which there is another one. -/
def stepGuarded (network : Network) (time : Nat) : Except Failure (StepReport × Network) := do
  let finished ← network.runPhasesGuarded time
  if time < lastTime then
    return (finished.report, { finished.network with nextTime := time + 1 })
  else
    throw .overflow

variable {network : Network}

/-- The neurons can take up the inputs that they have collected. -/
structure Supplied (network : Network) : Prop where
  acceptable : ∀ group ∈ network.neuronGroups, group.params.Acceptable
  inRange : ∀ group ∈ network.neuronGroups, group.InRange
  supported : ∀ group ∈ network.neuronGroups, group.Supported

/-- The synapse groups are ready for the next phase and find their targets. -/
structure Aimed (network : Network) : Prop where
  ready : ∀ group ∈ network.synapseGroups, group.Ready
  target : ∀ group ∈ network.synapseGroups, group.target < network.neuronGroups.length

/-- The synapse groups stay ready for the next phase if each of them does and keeps its wiring. -/
theorem Aimed.map
    (aimed : network.Aimed)
    {update : SynapseGroup → SynapseGroup}
    (ready : ∀ group, group.Ready → (update group).Ready)
    (kept : ∀ group, (update group).wiring = group.wiring) :
    Aimed { network with synapseGroups := network.synapseGroups.map update } := by
  constructor
  · intro group member
    obtain ⟨before, memberBefore, rfl⟩ := List.mem_map.mp member
    exact ready before (aimed.ready before memberBefore)
  · intro group member
    obtain ⟨before, memberBefore, rfl⟩ := List.mem_map.mp member
    have sameTarget : (update before).target = before.target :=
      congrArg SynapseGroup.Wiring.target (kept before)
    rw [sameTarget]
    exact aimed.target before memberBefore

/-- Few transmissions leave the inputs in the range that neurons can take up. -/
theorem supported_of_collected
    {group : NeuronGroup}
    {count : Nat}
    (collected : Delivery.Collected count group.input)
    (few : count < transmissionLimit) :
    group.Supported := by
  intro input member
  obtain ⟨lower, upper⟩ := collected input member
  rw [transmissionLimit] at few
  constructor
  · show -4611686018427387904 ≤ input
    omega
  · show input ≤ 4611686018427387904
    omega

end Network

namespace StepProgress

open Network

variable {progress : StepProgress}

/-- Delivery does not fail as long as few spikes are delivered, and prepares the phases after it. -/
theorem deliverSpikesGuarded_eq
    (sane : progress.network.Sane)
    (few : progress.deliverSpikes.report.transmissions < transmissionLimit) :
    progress.deliverSpikesGuarded = .ok progress.deliverSpikes ∧
      progress.deliverSpikes.network.Supplied ∧ progress.deliverSpikes.network.Aimed := by
  have emitted := sane.emit progress.report.time
  obtain ⟨delivers, delivered⟩ := emitted.deliverAllGuarded_eq few
  have neurons : progress.deliverSpikes.network.neuronGroups =
      progress.network.received progress.report.time := rfl
  have synapses : progress.deliverSpikes.network.synapseGroups =
      (progress.network.synapseGroups.map
        (progress.network.emit progress.report.time).transmission).map (·.2) := rfl
  refine ⟨?_, ⟨?_, ?_, ?_⟩, ⟨?_, ?_⟩⟩
  · unfold deliverSpikesGuarded
    rw [bind_of_eq_ok (progress.network.emitGuarded_eq _), bind_of_eq_ok delivers]
    rfl
  · rw [neurons]
    intro group member
    obtain ⟨before, memberBefore, deliveries, rfl⟩ := mem_received member
    have acceptable : before.params.Acceptable := sane.sound.neurons_of_mem memberBefore
    exact acceptable
  · rw [neurons]
    intro group member
    obtain ⟨before, memberBefore, deliveries, rfl⟩ := mem_received member
    have inRange : before.InRange := sane.inRange.neurons before memberBefore
    exact inRange
  · intro group member
    exact supported_of_collected (delivered.collected group member) few
  · rw [synapses, List.map_map]
    intro group member
    obtain ⟨before, memberBefore, rfl⟩ := List.mem_map.mp member
    exact (emitted.placed memberBefore).ready.transmit _ _
  · rw [synapses, List.map_map, neurons]
    intro group member
    obtain ⟨before, memberBefore, rfl⟩ := List.mem_map.mp member
    have sameLength := congrArg List.length (frames_received progress.network progress.report.time)
    rw [List.length_map, List.length_map] at sameLength
    rw [sameLength]
    exact (emitted.placed memberBefore).target

/-- The neuron update does not fail if all neurons can take up their inputs. -/
theorem updateNeuronsGuarded_eq (supplied : progress.network.Supplied) :
    progress.updateNeuronsGuarded = .ok progress.updateNeurons := by
  have updates : ∀ group ∈ progress.network.neuronGroups,
      group.updateGuarded progress.network.rounding =
        .ok (group.update progress.network.rounding) :=
    fun group member => (supplied.inRange group member).updateGuarded_eq
      (supplied.acceptable group member) (supplied.supported group member) _
  unfold updateNeuronsGuarded
  rw [bind_of_eq_ok (Partition.mapGuarded_eq updates)]
  rfl

theorem aimed_updateNeurons (aimed : progress.network.Aimed) :
    progress.updateNeurons.network.Aimed := by
  have sameLength : progress.updateNeurons.network.neuronGroups.length =
      progress.network.neuronGroups.length := by
    rw [updateNeurons, Partition.map_eq_map, List.length_map]
  refine ⟨aimed.ready, fun group member => ?_⟩
  rw [sameLength]
  exact aimed.target group member

/-- The trace update does not fail and leaves the synapse groups ready. -/
theorem updateTracesGuarded_eq (aimed : progress.network.Aimed) :
    progress.updateTracesGuarded = .ok progress.updateTraces ∧
      progress.updateTraces.network.Aimed := by
  constructor
  · have updates : ∀ group ∈ progress.network.synapseGroups,
        (do
          let target ← Guard.itemAt progress.network.neuronGroups group.target
          group.updateTracesGuarded target.lastSpikes progress.network.rounding) =
          .ok (group.updateTraces
            (progress.network.lastSpikes (.neuronGroup group.target))
            progress.network.rounding) := by
      intro group member
      have found := List.getElem?_eq_getElem (aimed.target group member)
      rw [bind_of_eq_ok (Guard.itemAt_of_some found), lastSpikes]
      simp only [found]
      exact ((aimed.ready group member).updateTraces _ _).1
    unfold updateTracesGuarded
    rw [bind_of_eq_ok (Partition.mapGuarded_eq updates)]
    rfl
  · rw [updateTraces, Partition.map_eq_map]
    exact aimed.map (fun _ ready => (ready.updateTraces _ _).2)
      fun _ => SynapseGroup.wiring_updateTraces _ _ _

/-- The learning update does not fail and leaves the synapse groups ready. -/
theorem learnGuarded_eq (aimed : progress.network.Aimed) :
    progress.learnGuarded = .ok progress.learn ∧ progress.learn.network.Aimed := by
  constructor
  · unfold learnGuarded
    rw [bind_of_eq_ok (Partition.mapGuarded_eq fun group member =>
      (aimed.ready group member).learn.1)]
    rfl
  · rw [learn, Partition.map_eq_map]
    exact aimed.map (fun _ ready => ready.learn.2) SynapseGroup.wiring_learn

/-- The weight commit does not fail. -/
theorem commitWeightsGuarded_eq (aimed : progress.network.Aimed) :
    progress.commitWeightsGuarded = .ok progress.commitWeights := by
  unfold commitWeightsGuarded
  rw [bind_of_eq_ok (Partition.mapGuarded_eq fun group member =>
    (aimed.ready group member).commitGuarded_eq progress.network.rounding)]
  rfl

end StepProgress

/-- A step takes place before the last time, and few spikes are delivered in it. -/
structure StepReport.Bounded (report : StepReport) : Prop where
  early : report.time < Network.lastTime
  few : report.transmissions < transmissionLimit

instance (report : StepReport) : Decidable report.Bounded :=
  decidable_of_iff
    (report.time < Network.lastTime ∧ report.transmissions < transmissionLimit)
    ⟨fun ⟨early, few⟩ => ⟨early, few⟩, fun ⟨early, few⟩ => ⟨early, few⟩⟩

namespace Network

/-- The phases of a step of a sane network do not fail as long as few spikes are delivered. -/
theorem Sane.runPhasesGuarded_eq
    {network : Network}
    (sane : network.Sane)
    {time : Nat}
    (few : (network.reportOf time).transmissions < transmissionLimit) :
    network.runPhasesGuarded time = .ok (network.runPhases time) := by
  let start : StepProgress := { network := network, report := .atTime time }
  have saneStart : start.network.Sane := sane
  obtain ⟨delivers, supplied, aimed⟩ := StepProgress.deliverSpikesGuarded_eq saneStart few
  obtain ⟨traces, aimedTraces⟩ :=
    StepProgress.updateTracesGuarded_eq (StepProgress.aimed_updateNeurons aimed)
  obtain ⟨learns, aimedLearned⟩ := StepProgress.learnGuarded_eq aimedTraces
  unfold runPhasesGuarded runPhases Phase.pipeline
  simp only [List.foldlM_cons, List.foldlM_nil, List.foldl_cons, List.foldl_nil,
    StepProgress.runGuarded, StepProgress.run]
  rw [bind_of_eq_ok delivers, bind_of_eq_ok (StepProgress.updateNeuronsGuarded_eq supplied),
    bind_of_eq_ok traces, bind_of_eq_ok learns,
    bind_of_eq_ok (StepProgress.commitWeightsGuarded_eq aimedLearned)]
  rfl

/-- A step of a sane network does not fail before the last time and as long as few spikes are
delivered. -/
theorem Sane.stepGuarded_eq
    {network : Network}
    (sane : network.Sane)
    {time : Nat}
    (bounded : (network.reportOf time).Bounded) :
    network.stepGuarded time = .ok (network.step time) := by
  have early : time < lastTime := bounded.early
  unfold stepGuarded
  rw [bind_of_eq_ok (sane.runPhasesGuarded_eq bounded.few), if_pos early]
  rfl

end Network

end Neurochip
