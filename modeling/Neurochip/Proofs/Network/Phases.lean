import Neurochip.Network.Step
import Neurochip.Proofs.SynapseGroup.Operations
import Neurochip.Proofs.Tally.Sums

namespace Neurochip

/-!
# A step in one equation

The five phases of a step hand the network on from one to the next.  The main
statement puts them together: the neuron groups and the synapse groups after a
step, and the report of the step, in terms of the network before it.
-/

namespace Network

/-- The neuron groups of a step before their update, with the input of the step. -/
def received (network : Network) (time : Nat) : List NeuronGroup :=
  receive network.neuronGroups (network.emit time).transmissions

/-- The neuron groups after the update of a step. -/
def fired (network : Network) (time : Nat) : List NeuronGroup :=
  (network.received time).map (·.update network.rounding)

/-- The network in the middle of a step, its neurons updated and its synapses not yet. -/
def halfway (network : Network) (time : Nat) : Network :=
  { network.emit time with neuronGroups := network.fired time }

/-- What a step gives to a synapse group. -/
def stimulus (network : Network) (time : Nat) (group : SynapseGroup) : Stimulus :=
  { spikes := (network.emit time).lastSpikes group.source
    targets := network.groupSize group.target
    targetSpikes := (network.halfway time).lastSpikes (.neuronGroup group.target) }

/-- The number of changed weights and the synapse group after a step. -/
def steppedGroup (network : Network) (time : Nat) (group : SynapseGroup) : Nat × SynapseGroup :=
  group.stepped (network.stimulus time group) network.rounding

/-- The report of a step. -/
def reportOf (network : Network) (time : Nat) : StepReport :=
  { time := time
    spikes := (network.emit time).emittedSpikes ++ (network.halfway time).firedSpikes
    transmissions := tally (·.1.length) (network.emit time).transmissions
    weightUpdates := tally (fun group => (network.steppedGroup time group).1)
      network.synapseGroups }

/-- The network after a step. -/
def next (network : Network) (time : Nat) : Network :=
  { network.halfway time with
    synapseGroups := network.synapseGroups.map fun group => (network.steppedGroup time group).2
    nextTime := time + 1 }

/-- The phases of a step, one after the other, make the report and the network of the step. -/
theorem step_eq (network : Network) (time : Nat) :
    network.step time = (network.reportOf time, network.next time) := by
  simp only [step, runPhases, Phase.pipeline, List.foldl_cons, List.foldl_nil,
    StepProgress.run, StepProgress.deliverSpikes, StepProgress.updateNeurons,
    StepProgress.updateTraces, StepProgress.learn, StepProgress.commitWeights,
    Partition.map_eq_map, StepReport.atTime, reportOf, transmissions, List.map_map, tally_map,
    List.nil_append, next, steppedGroup, SynapseGroup.stepped, SynapseGroup.traced, stimulus,
    halfway, fired, received, Function.comp_def, emit]
  rfl

end Network

end Neurochip
