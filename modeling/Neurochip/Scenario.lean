import Neurochip.Network.Step
import Neurochip.Random.Sample

namespace Neurochip

/-!
# The random scenario

A population of excitatory and one of inhibitory neurons are driven by a random
stimulus and connected at random; the connections within the excitatory
population learn.  `Scenario.populate?` draws connections and stimulus into a
description without any, and the sums of `Scenario.Summary` condense a run to a
few numbers that can be compared.
-/

namespace Scenario

/-- Which neurons of two objects are connected. -/
inductive Wiring where
  | oneToOne
  /-- Each pair with probability `threshold / 2 ^ 64`. -/
  | random (threshold : UInt64)
  deriving Repr, DecidableEq

/-- The connections of one synapse group, with the range of their initial weights. -/
structure Projection where
  wiring : Wiring
  weights : Bounds
  deriving Repr, DecidableEq

/-- One in twenty, to the precision of binary64. -/
def oneInTwenty : UInt64 :=
  Draw.threshold (.ofRatio 1 20)

/-- The digits of the binary64 number at one in twenty, moved up to the top of a word. -/
example : oneInTwenty = 0x0CCCCCCCCCCCCD00 := by
  decide +kernel

/-- One in four. -/
def oneInFour : UInt64 :=
  Draw.threshold (.ofRatio 1 4)

/-- The projections of the scenario, one for each of its synapse groups. -/
def projections : List Projection :=
  [⟨.oneToOne, { lower := 200, upper := 200 }⟩,
    ⟨.random oneInTwenty, { lower := 0, upper := 64 }⟩,
    ⟨.random oneInFour, { lower := 64, upper := 64 }⟩,
    ⟨.random oneInFour, { lower := -128, upper := -128 }⟩,
    ⟨.random oneInFour, { lower := -128, upper := -128 }⟩]

/-- The probability of a step without stimulus, `exp (-5)` for five spikes on average. -/
def silence : Binary64 :=
  .ofRatio 6737946999085467 1000000000000000000

/-- The excitatory and the inhibitory neurons. -/
def neuronGroups : List NeuronGroupParams :=
  [{ size := 800
     neuron :=
      { refractoryPeriod := 5
        thresholdMantissa := 300
        decayVoltage := 256
        decayCurrent := 1024 } },
    { size := 200
      neuron :=
      { refractoryPeriod := 2
        thresholdMantissa := 200
        decayVoltage := 512
        decayCurrent := 1024 } }]

/-- The traces of the synapses that learn. -/
def learningTraces : Channels TraceParams :=
  { x1 := { impulse := 40, tau := 20 }
    x2 := {}
    y1 := { impulse := 40, tau := 20 }
    y2 := { impulse := 20, tau := 40 }
    y3 := {} }

/-- The synapse groups: stimulus, recurrent excitation, and connections from and to inhibition. -/
def synapseGroups : List SynapseGroupParams :=
  [{ source := .spikeSource 0
     target := 0
     connections := []
     synapse := { weightExponent := 2 } },
    { source := .neuronGroup 0
      target := 0
      connections := []
      synapse :=
      { delay := 3
        learningRule := "2*x1*y1 - x1*y2"
        weightBits := 6
        traces := learningTraces } },
    { source := .neuronGroup 0
      target := 1
      connections := []
      synapse := { delay := 1 } },
    { source := .neuronGroup 1
      target := 0
      connections := []
      synapse := { signMode := .inhibitory } },
    { source := .neuronGroup 1
      target := 1
      connections := []
      synapse := { signMode := .inhibitory } }]

/-- The scenario before any connection or stimulus has been drawn. -/
def params : NetworkParams :=
  { neuronGroups := neuronGroups
    spikeSources := [{ size := 800, indices := [], times := [], period := 1000 }]
    synapseGroups := synapseGroups }

/--
Replaces the sizes of the two populations, and the size and the period of the
stimulus.  There is no answer unless all three are there.
-/
def resize? (params : NetworkParams) (excitatory inhibitory stimulus period : Nat) :
    Option NetworkParams :=
  match params.neuronGroups, params.spikeSources with
  | first :: second :: groups, source :: sources =>
      some { params with
        neuronGroups :=
          { first with size := excitatory } :: { second with size := inhibitory } :: groups
        spikeSources := { source with size := stimulus, period := period } :: sources }
  | _, _ => none

/-- The spikes drawn for one step of the stimulus. -/
def drawSpikes (size time : Nat) : Draw (List SpikeEvent) := do
  let count ← Draw.poisson silence
  let indices ← Draw.sample size count
  return indices.map fun index => { time := time, index := index }

/-- The stimulus with spikes drawn for every step of its period. -/
def drawStimulus (source : SpikeSourceParams) : Draw SpikeSourceParams := do
  let steps ← (List.range source.period).mapM (drawSpikes source.size)
  let events := steps.flatten
  return { source with
    indices := source.indices ++ events.map (·.index)
    times := source.times ++ events.map (·.time)
    sorted := false }

/-- The connections drawn from one neuron to some others. -/
def drawRow (threshold : UInt64) (weights : Bounds) (pre : Nat) :
    List Nat → Draw (List Connection)
  | [] => return []
  | post :: rest => do
      let connected ← Draw.chance threshold
      if connected then
        let weight ← Draw.within weights
        let others ← drawRow threshold weights pre rest
        return { pre := pre, post := post, weight := weight } :: others
      else
        drawRow threshold weights pre rest

/-- The connections drawn between objects of the given sizes. -/
def drawConnections (projection : Projection) (sources targets : Nat) :
    Draw (List Connection) :=
  match projection.wiring with
  | .oneToOne =>
      (List.range (min sources targets)).mapM fun neuron => do
        let weight ← Draw.within projection.weights
        return { pre := neuron, post := neuron, weight := weight }
  | .random threshold => do
      let rows ← (List.range sources).mapM fun pre =>
        drawRow threshold projection.weights pre (List.range targets)
      return rows.flatten

/-- The sizes of the two objects that a synapse group connects; every source has the stimulus' size. -/
def connectedSizes?
    (params : NetworkParams)
    (stimulus : SpikeSourceParams)
    (group : SynapseGroupParams) :
    Option (Nat × Nat) := do
  let targets ← params.targetSize? group.target
  let sources ←
    match group.source with
    | .neuronGroup source => params.targetSize? source
    | .spikeSource _ => some stimulus.size
  return (sources, targets)

/-- A synapse group with its projection and the sizes of the objects it connects. -/
structure Task where
  group : SynapseGroupParams
  projection : Projection
  sources : Nat
  targets : Nat

/-- The synapse groups that get connections, unless one of them refers to an unknown group. -/
def tasks? (params : NetworkParams) (stimulus : SpikeSourceParams) : Option (List Task) :=
  (params.synapseGroups.zip projections).mapM fun (group, projection) => do
    let (sources, targets) ← connectedSizes? params stimulus group
    return { group := group, projection := projection, sources := sources, targets := targets }

/-- The synapse group of a task with the connections that were drawn for it. -/
def Task.draw (task : Task) : Draw SynapseGroupParams := do
  let connections ← drawConnections task.projection task.sources task.targets
  return { task.group with connections := task.group.connections ++ connections }

/--
Draws a stimulus into the first spike source and connections into the synapse
groups.  There is no answer without a spike source or without room for its
neurons, or if a synapse group refers to a neuron group that does not exist.
-/
def populate? (params : NetworkParams) : Option (Draw NetworkParams) :=
  match params.spikeSources with
  | [] => none
  | stimulus :: otherSources =>
      if Capacity.HasRoom stimulus.size then
        (tasks? params stimulus).map fun tasks => do
          let stimulus ← drawStimulus stimulus
          let groups ← tasks.mapM Task.draw
          return { params with
            spikeSources := stimulus :: otherSources
            synapseGroups := groups ++ params.synapseGroups.drop tasks.length }
      else
        none

/-- The sums that condense a run. -/
structure Summary where
  excitatory : Nat
  inhibitory : Nat
  transmissions : Nat
  weightUpdates : Nat
  voltages : Int
  synapses : Int
  deriving Repr, DecidableEq

/-- The sum of time times index over the spikes of one object in a step. -/
def spikeSum (object : ObjectId) (report : StepReport) : Nat :=
  tally (report.time * ·) ((report.indicesFor object).getD [])

/-- The product of a synapse's two neurons, as signed words, and its mantissa, if it is a word. -/
def synapseTerm? (synapse : Synapse) : Option Int := do
  let neurons ←
    Bounds.int64.within? (wrapSigned 64 synapse.pre * wrapSigned 64 synapse.post)
  Bounds.int64.within? (neurons * synapse.weight.mantissa)

/-- The sum over some synapses, if it is a word after each of them. -/
def synapseSum? (synapses : List Synapse) : Option Int :=
  synapses.foldlM
    (fun sum synapse => do
      let term ← synapseTerm? synapse
      Bounds.int64.within? (sum + term))
    0

/-- The summary of the reports of a run and the network at its end, if its sums are words. -/
def Summary.ofRun? (reports : List StepReport) (network : Network) : Option Summary := do
  let synapses ← synapseSum? (network.synapseGroups.flatMap (·.synapses.toList))
  return {
    excitatory := tally (spikeSum (.neuronGroup 0)) reports
    inhibitory := tally (spikeSum (.neuronGroup 1)) reports
    transmissions := tally (·.transmissions) reports
    weightUpdates := tally (·.weightUpdates) reports
    voltages := balance (fun group => balance (·.voltage) group.states) network.neuronGroups
    synapses := synapses }

end Scenario

end Neurochip
