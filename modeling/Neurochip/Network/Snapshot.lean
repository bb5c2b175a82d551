import Neurochip.Network.Basic

namespace Neurochip

/-!
# Snapshots

A snapshot holds the states of all neurons and synapses, but neither spikes on
their way nor generators.  It is restored completely or not at all.
-/

/-- The saved states, one list for each neuron group and for each synapse group. -/
structure Snapshot where
  neuronGroups : List (List NeuronState)
  synapseGroups : List (List SynapseState)
  deriving Repr, DecidableEq, Inhabited

namespace Network

/-- The states of all neurons and synapses. -/
def snapshot (network : Network) : Snapshot :=
  { neuronGroups := network.neuronGroups.map (·.states)
    synapseGroups := network.synapseGroups.map (·.states) }

/-- Writes the parts of a snapshot to copies of the groups, and then puts the copies in their place. -/
def restoreInPlace (snapshot : Snapshot) : Method Network Unit := do
  let network ← get
  Refusal.checkLengths .neuronGroups network.neuronGroups.length snapshot.neuronGroups.length
  Refusal.checkLengths .synapseGroups network.synapseGroups.length
    snapshot.synapseGroups.length
  let neuronGroups ←
    Method.inCopies NeuronGroup.restoreInPlace network.neuronGroups snapshot.neuronGroups
  let synapseGroups ←
    Method.inCopies SynapseGroup.restoreInPlace network.synapseGroups snapshot.synapseGroups
  modify fun network => { network with neuronGroups := neuronGroups }
  modify fun network => { network with synapseGroups := synapseGroups }

/-- The network after a snapshot has been restored, unless a group refuses its part. -/
def restore (network : Network) (snapshot : Snapshot) : Except Refusal Network :=
  (restoreInPlace snapshot).result network

end Network

end Neurochip
