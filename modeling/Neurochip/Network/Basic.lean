import Neurochip.Network.Variable
import Neurochip.Partition
import Neurochip.Random.Seeding
import Neurochip.SpikeSource
import Neurochip.SynapseGroup

namespace Neurochip

/-!
# Networks

A network is built from its description only if every list of events is
complete, every value is acceptable and every learning rule can be parsed; the
first of these three that fails is reported.  Each group draws from a generator
of its own.
-/

/-- The objects of a network, and the time of its next step. -/
structure Network where
  neuronGroups : List NeuronGroup
  spikeSources : List SpikeSource
  synapseGroups : List SynapseGroup
  rounding : RoundingMode
  threads : Nat
  nextTime : Nat

namespace NetworkParams

/-- Refuses the first spike source whose indices and times differ in number. -/
def checkSourceEvents (params : NetworkParams) : Except Refusal Unit :=
  params.spikeSources.zipIdx.forM fun (source, index) =>
    Refusal.checkLengths (.sourceEvents index) source.indices.length source.times.length

/-- Refuses incomplete lists of events first, then values that are not acceptable. -/
def check (params : NetworkParams) (processors : Nat) : Except Refusal Unit := do
  params.checkSourceEvents
  Refusal.checkValid (params.violations processors)

/-- Whether there is room for the neurons of every group. -/
def HasRoom (params : NetworkParams) : Prop :=
  ∀ group ∈ params.neuronGroups, Capacity.HasRoom group.size

instance (params : NetworkParams) : Decidable params.HasRoom :=
  inferInstanceAs (Decidable (∀ group ∈ params.neuronGroups, Capacity.HasRoom group.size))

/-- The generator of the neuron group with the given index. -/
def neuronGenerator (params : NetworkParams) (index : Nat) : Generator :=
  .ofObject params.technical.seed.toUInt64 "neuron_group" index.toUInt64

/-- The generator of the synapse group with the given index. -/
def synapseGenerator (params : NetworkParams) (index : Nat) : Generator :=
  .ofObject params.technical.seed.toUInt64 "synapse_group" index.toUInt64

end NetworkParams

namespace Network

/-- Builds the objects of a network at rest. -/
def ofParams (params : NetworkParams) : Except Refusal Network := do
  let neuronGroups ← params.neuronGroups.zipIdx.mapM fun (group, index) =>
    NeuronGroup.create group.size group.neuron (params.neuronGenerator index)
  let spikeSources ← params.spikeSources.mapM SpikeSource.create
  let synapseGroups ← params.synapseGroups.zipIdx.mapM fun (group, index) =>
    SynapseGroup.create group (params.synapseGenerator index)
  return {
    neuronGroups := neuronGroups
    spikeSources := spikeSources
    synapseGroups := synapseGroups
    rounding := params.technical.rounding
    threads := params.technical.threads
    nextTime := 0 }

/-- Builds a network at rest on a machine with the given number of processors. -/
def configure (processors : Nat) (params : NetworkParams) : Except Refusal Network := do
  params.check processors
  ofParams params

/-- A network at rest, as `configure` builds it; there is none without room for its neurons. -/
def configure? (processors : Nat) (params : NetworkParams) :
    Except Refusal (Option Network) := do
  params.check processors
  if params.HasRoom then
    let network ← ofParams params
    return some network
  else
    return none

/-- The last spikes of an object; an object that does not exist has none. -/
def lastSpikes (network : Network) : SourceRef → List Nat
  | .neuronGroup group =>
      match network.neuronGroups[group]? with
      | some group => group.lastSpikes
      | none => []
  | .spikeSource source =>
      match network.spikeSources[source]? with
      | some source => source.lastSpikes
      | none => []

/-- The number of neurons of a neuron group; a group that does not exist has none. -/
def groupSize (network : Network) (group : Nat) : Nat :=
  match network.neuronGroups[group]? with
  | some group => group.size
  | none => 0

/-- Calls a method of a synapse group in its place in the network, if there is such a group. -/
def callSynapseGroup? (network : Network) (group : Nat) (method : Method SynapseGroup Unit) :
    Option (Except Refusal Unit × Network) :=
  network.synapseGroups[group]?.map fun synapses =>
    let (outcome, after) := method.call synapses
    (outcome, { network with synapseGroups := network.synapseGroups.set group after })

/-- The network after the weights of a synapse group have been set, if there is such a group. -/
def setWeights (network : Network) (group : Nat) (mantissas : List Int) :
    Option (Except Refusal Network) :=
  network.synapseGroups[group]?.map fun synapses => do
    let synapses ← synapses.setWeights mantissas
    return { network with synapseGroups := network.synapseGroups.set group synapses }

end Network

end Neurochip
