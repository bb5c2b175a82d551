import Neurochip.Network.Basic
import Neurochip.Tally

namespace Neurochip

/-!
# Stepping a network

A step runs five phases, each of which sees everything the phases before it
have done.  Spikes of sources leave in the step in which they are due; spikes of
neurons leave in the step after the one in which the neuron spiked.
-/

/-- The phases of a step. -/
inductive Phase where
  | spikeDelivery
  | neuronUpdate
  | traceUpdate
  | learningUpdate
  | weightCommit
  deriving Repr, DecidableEq

namespace Phase

/-- The phases in the order in which they run. -/
def pipeline : List Phase :=
  [spikeDelivery, neuronUpdate, traceUpdate, learningUpdate, weightCommit]

/-- The name of a phase in messages. -/
def name : Phase → String
  | spikeDelivery => "SpikeDelivery"
  | neuronUpdate => "NeuronUpdate"
  | traceUpdate => "TraceUpdate"
  | learningUpdate => "LearningUpdate"
  | weightCommit => "WeightCommit"

end Phase

/-- The spikes of one object in one step. -/
structure SpikeGroup where
  object : ObjectId
  indices : List Nat
  deriving Repr, DecidableEq

/-- What happened in a step. -/
structure StepReport where
  time : Nat
  /-- The spike sources in order, then the neuron groups in order. -/
  spikes : List SpikeGroup
  transmissions : Nat
  weightUpdates : Nat
  deriving Repr, DecidableEq

namespace StepReport

/-- A step in which nothing has happened yet. -/
def atTime (time : Nat) : StepReport :=
  { time := time, spikes := [], transmissions := 0, weightUpdates := 0 }

/-- The spikes of one object, if the report covers it. -/
def indicesFor (report : StepReport) (object : ObjectId) : Option (List Nat) :=
  (report.spikes.find? (·.object = object)).map (·.indices)

/-- The number of spikes of all objects. -/
def spikeCount (report : StepReport) : Nat :=
  tally (·.indices.length) report.spikes

end StepReport

namespace Network

/-- The network after its sources have emitted the spikes of a time. -/
def emit (network : Network) (time : Nat) : Network :=
  { network with spikeSources := network.spikeSources.map (·.emit time) }

/-- The spikes that the sources emitted last. -/
def emittedSpikes (network : Network) : List SpikeGroup :=
  network.spikeSources.zipIdx.map fun (source, index) =>
    { object := .spikeSource index, indices := source.lastSpikes }

/-- The spikes of the neurons in their last update. -/
def firedSpikes (network : Network) : List SpikeGroup :=
  network.neuronGroups.zipIdx.map fun (group, index) =>
    { object := .neuronGroup index, indices := group.lastSpikes }

/-- What each synapse group delivers of the last spikes of its source, and the group afterwards. -/
def transmissions (network : Network) : List (List Delivery × SynapseGroup) :=
  network.synapseGroups.map fun group =>
    group.transmit (network.lastSpikes group.source) (network.groupSize group.target)

/-- The neuron groups with all deliveries added to their input. -/
def receive (groups : List NeuronGroup) (transmissions : List (List Delivery × SynapseGroup)) :
    List NeuronGroup :=
  transmissions.foldl
    (fun groups (deliveries, synapses) =>
      groups.modify synapses.target (·.addInputs deliveries))
    groups

end Network

/-- A network in the middle of a step, with the report so far. -/
structure StepProgress where
  network : Network
  report : StepReport

namespace StepProgress

/-- The sources emit, all spikes enter their delay lines, and those that arrive become input. -/
def deliverSpikes (progress : StepProgress) : StepProgress :=
  let report := progress.report
  let network := progress.network.emit report.time
  let transmissions := network.transmissions
  { network :=
      { network with
        neuronGroups := Network.receive network.neuronGroups transmissions
        synapseGroups := transmissions.map (·.2) }
    report :=
      { report with
        spikes := report.spikes ++ network.emittedSpikes
        transmissions := tally (·.1.length) transmissions } }

/-- All neurons take up their input. -/
def updateNeurons (progress : StepProgress) : StepProgress :=
  let network := progress.network
  let updated : Network :=
    { network with
      neuronGroups :=
        Partition.map network.threads (·.update network.rounding) network.neuronGroups }
  { network := updated
    report :=
      { progress.report with spikes := progress.report.spikes ++ updated.firedSpikes } }

/-- All traces decay and take up the spikes of this step. -/
def updateTraces (progress : StepProgress) : StepProgress :=
  let network := progress.network
  let update := fun (group : SynapseGroup) =>
    group.updateTraces (network.lastSpikes (.neuronGroup group.target)) network.rounding
  { progress with
    network :=
      { network with
        synapseGroups := Partition.map network.threads update network.synapseGroups } }

/-- The learning rules ask for weight changes. -/
def learn (progress : StepProgress) : StepProgress :=
  let network := progress.network
  { progress with
    network :=
      { network with
        synapseGroups :=
          Partition.map network.threads SynapseGroup.learn network.synapseGroups } }

/-- The weight changes are committed. -/
def commitWeights (progress : StepProgress) : StepProgress :=
  let network := progress.network
  let committed :=
    Partition.map network.threads (·.commit network.rounding) network.synapseGroups
  { network := { network with synapseGroups := committed.map (·.2) }
    report := { progress.report with weightUpdates := tally (·.1) committed } }

/-- Runs one phase. -/
def run (progress : StepProgress) : Phase → StepProgress
  | .spikeDelivery => progress.deliverSpikes
  | .neuronUpdate => progress.updateNeurons
  | .traceUpdate => progress.updateTraces
  | .learningUpdate => progress.learn
  | .weightCommit => progress.commitWeights

end StepProgress

namespace Network

/-- The network and the report after all phases of a step at the given time. -/
def runPhases (network : Network) (time : Nat) : StepProgress :=
  Phase.pipeline.foldl StepProgress.run { network := network, report := .atTime time }

/-- One step at the given time; the next one is expected right after it. -/
def step (network : Network) (time : Nat) : StepReport × Network :=
  let finished := network.runPhases time
  (finished.report, { finished.network with nextTime := time + 1 })

/-- Steps through consecutive times, starting at the next one. -/
def run (network : Network) : Nat → List StepReport × Network
  | 0 => ([], network)
  | steps + 1 =>
      let (report, network) := network.step network.nextTime
      let (reports, network) := network.run steps
      (report :: reports, network)

/-- The last time, a word of 64 bits, after which no step can be expected. -/
def lastTime : Nat := 18446744073709551615

/--
One step at the given time.  A step at the last time ends after its phases, and
the error holds the network, which still expects the step that it expected.
-/
def stepChecked (network : Network) (time : Nat) : Except Network (StepReport × Network) :=
  if time < lastTime then
    .ok (network.step time)
  else
    .error (network.runPhases time).network

/--
Steps through consecutive times, starting at the next one.  If the last time is
reached, the error holds the reports of the steps before it, and the network
after it.  There is also an error, and no step, without room for the reports.
-/
def runChecked (network : Network) (steps : Nat) :
    Except (List StepReport × Network) (List StepReport × Network) :=
  if Capacity.HasRoom steps then
    let (reports, after) := network.run (min steps (lastTime - network.nextTime))
    if network.nextTime + steps ≤ lastTime then
      .ok (reports, after)
    else
      .error (reports, (after.runPhases lastTime).network)
  else
    .error ([], network)

end Network

end Neurochip
