import Neurochip.DelayLine
import Neurochip.NeuronGroup
import Neurochip.NeuronIndex
import Neurochip.Synapse

namespace Neurochip

/-!
# Synapse groups

All synapses of a group share a source, a target, a delay, a way to represent
weights and a learning rule.  A step has four parts: spikes travel and are
delivered, traces decay and take up the spikes of the step, the learning rule
asks for weight changes, and the changes are committed.
-/

/-- The change of one synapse that is not committed yet. -/
structure PendingChange where
  position : Nat
  change : Int
  deriving Repr, DecidableEq

/-- Synapses with common parameters, the spikes on their way, and what this step has touched. -/
structure SynapseGroup where
  source : SourceRef
  target : Nat
  params : SynapseParams
  rule : Option LearningRule
  synapses : Array Synapse
  outgoing : NeuronIndex
  incoming : NeuronIndex
  inFlight : DelayLine Nat
  /-- The touched synapses, in the order in which they were touched first. -/
  touched : Array Nat
  pending : List PendingChange
  generator : Generator

namespace SynapseGroup

/-- How the weights of the group are represented. -/
def quantizer (group : SynapseGroup) : Quantizer :=
  group.params.quantizer

/-- The number of synapses. -/
def size (group : SynapseGroup) : Nat :=
  group.synapses.size

/-- A group at rest that learns by the given rule. -/
def atRest
    (params : SynapseGroupParams)
    (rule : Option LearningRule)
    (generator : Generator) :
    SynapseGroup :=
  { source := params.source
    target := params.target
    params := params.synapse
    rule := rule
    synapses :=
      (params.connections.map (Synapse.ofConnection params.synapse.quantizer)).toArray
    outgoing := .ofNeurons (params.connections.map (·.pre))
    incoming := .ofNeurons (params.connections.map (·.post))
    inFlight := .empty params.synapse.delay
    touched := #[]
    pending := []
    generator := generator }

/-- A group at rest, if its parameters, weights and learning rule are acceptable. -/
def create (params : SynapseGroupParams) (generator : Generator) : Except Refusal SynapseGroup := do
  Refusal.checkValid (params.synapse.violations [])
  Refusal.checkValid
    (params.synapse.signMode.violations [.field "connections"] params.weights)
  let rule ← (LearningRule.parse? params.synapse.learningRule).mapError Refusal.rule
  return atRest params rule generator

/--
Records an event at the synapses with the given positions, in order, and adds
those that were not touched before to the touched ones.
-/
def markAll
    (event : Synapse → Synapse)
    (positions : List Nat)
    (synapses : Array Synapse)
    (touched : Array Nat) :
    Array Synapse × Array Nat :=
  match positions with
  | [] => (synapses, touched)
  | position :: rest =>
      match synapses[position]? with
      | none => markAll event rest synapses touched
      | some synapse =>
          markAll event rest
            (synapses.modify position event)
            (if synapse.isTouched then touched else touched.push position)

/-- The group after an event at the synapses with the given positions. -/
def mark (group : SynapseGroup) (event : Synapse → Synapse) (positions : List Nat) :
    SynapseGroup :=
  let (synapses, touched) := markAll event positions group.synapses group.touched
  { group with synapses := synapses, touched := touched }

/-- Whether a position is that of a synapse whose target is among the first `targets` neurons. -/
def reaches (group : SynapseGroup) (targets position : Nat) : Bool :=
  match group.synapses[position]? with
  | none => false
  | some synapse => synapse.post < targets

/-- What a spike through the synapse at a position delivers. -/
def delivery? (group : SynapseGroup) (position : Nat) : Option Delivery :=
  group.synapses[position]?.map fun synapse =>
    { neuron := synapse.post, amount := synapse.weight.actual }

/--
Sends spikes of the source on their way and delivers those that arrive now to a
target of the given size: for each spike in order, each of its synapses in order.
-/
def transmit
    (group : SynapseGroup)
    (spikes : List Nat)
    (targets : Nat) :
    List Delivery × SynapseGroup :=
  let (arriving, inFlight) := (group.inFlight.schedule group.params.delay spikes).drain
  let reached :=
    (arriving.flatMap group.outgoing.lookup).filter (group.reaches targets)
  let deliveries := reached.filterMap group.delivery?
  (deliveries, { group with inFlight := inFlight }.mark Synapse.arrive reached)

/-- Lets all traces decay. -/
def decayTraces (group : SynapseGroup) (mode : RoundingMode) : SynapseGroup :=
  let (synapses, generator) :=
    ((group.synapses.mapM fun synapse =>
      synapse.decayTraces group.params.traces mode : Draw _)).run group.generator
  { group with synapses := synapses, generator := generator }

/-- Applies a change to every touched synapse. -/
def updateTouched (group : SynapseGroup) (change : Synapse → Synapse) : SynapseGroup :=
  { group with
    synapses := group.touched.foldl (fun synapses position => synapses.modify position change)
      group.synapses }

/-- Lets all traces decay, then adds the impulses of this step's arrivals and target spikes. -/
def updateTraces
    (group : SynapseGroup)
    (spikes : List Nat)
    (mode : RoundingMode) :
    SynapseGroup :=
  let decayed := group.decayTraces mode
  let marked := decayed.mark Synapse.spike (spikes.flatMap decayed.incoming.lookup)
  marked.updateTouched (·.addImpulses marked.params.traces)

/-- The change that a rule asks for at a position. -/
def pendingChange? (group : SynapseGroup) (rule : LearningRule) (position : Nat) :
    Option PendingChange := do
  let synapse ← group.synapses[position]?
  let change ← synapse.change? rule
  return { position := position, change := change }

/-- Asks the learning rule for the changes of the touched synapses. -/
def learn (group : SynapseGroup) : SynapseGroup :=
  match group.rule with
  | none => group
  | some rule =>
      { group with
        pending := group.pending ++ group.touched.toList.filterMap (group.pendingChange? rule) }

/-- Commits changes in order, counting the weights that become different. -/
def commitAll
    (quantizer : Quantizer)
    (mode : RoundingMode)
    (changes : List PendingChange)
    (synapses : Array Synapse)
    (different : Nat) :
    Draw (Array Synapse × Nat) :=
  match changes with
  | [] => return (synapses, different)
  | pending :: rest =>
      match synapses[pending.position]? with
      | none => commitAll quantizer mode rest synapses different
      | some synapse => do
          let weight ← synapse.changedWeight quantizer mode pending.change
          commitAll quantizer mode rest
            (synapses.modify pending.position ({ · with weight := weight }))
            (if weight = synapse.weight then different else different + 1)

/-- Commits all pending changes, ends the step, and answers how many weights became different. -/
def commit (group : SynapseGroup) (mode : RoundingMode) : Nat × SynapseGroup :=
  let ((synapses, different), generator) :=
    (commitAll group.quantizer mode group.pending group.synapses 0).run group.generator
  let settled :=
    { group with synapses := synapses, generator := generator }.updateTouched Synapse.settle
  (different, { settled with touched := #[], pending := [] })

/-- The stored weights, in order. -/
def weights (group : SynapseGroup) : List Weight :=
  group.synapses.toList.map (·.weight)

/-- Writes items to the synapses from a position on, one after the other. -/
def writeFrom (write : Synapse → α → Synapse) (position : Nat) :
    List α → Method SynapseGroup Unit
  | [] => return ()
  | item :: rest => do
      modify fun group =>
        { group with synapses := group.synapses.modify position (write · item) }
      writeFrom write (position + 1) rest

/-- Checks mantissas, then writes the weights for them. -/
def setWeightsInPlace (mantissas : List Int) : Method SynapseGroup Unit := do
  let group ← get
  Refusal.checkLengths .synapseWeights group.size mantissas.length
  Refusal.checkValid
    (group.params.signMode.violations [.field "synapses"] mantissas)
  let quantizer := group.quantizer
  writeFrom
    (fun synapse mantissa => { synapse with weight := quantizer.quantize mantissa }) 0 mantissas

/-- The group after the weights for some mantissas have been set, unless they are refused. -/
def setWeights (group : SynapseGroup) (mantissas : List Int) : Except Refusal SynapseGroup :=
  (setWeightsInPlace mantissas).result group

/-- The saved part of all synapses. -/
def states (group : SynapseGroup) : List SynapseState :=
  group.synapses.toList.map Synapse.state

/-- Checks saved states, then writes their weights and traces; spikes on their way stay there. -/
def restoreInPlace (states : List SynapseState) : Method SynapseGroup Unit := do
  let group ← get
  Refusal.checkLengths .synapseStates group.size states.length
  Refusal.checkValid
    (checkEach
      (fun position (synapse, state) => synapse.violations group.quantizer position state)
      (group.synapses.toList.zip states))
  writeFrom Synapse.restore 0 states

/-- The group after saved states have been restored, unless they are refused. -/
def restore (group : SynapseGroup) (states : List SynapseState) :
    Except Refusal SynapseGroup :=
  (restoreInPlace states).result group

end SynapseGroup

end Neurochip
