import Neurochip.Error
import Neurochip.Params.Validation
import Neurochip.Rule.LearningRule

namespace Neurochip

/-!
# Single synapses

A synapse connects a neuron of the source to a neuron of the target.  Within a
step it remembers whether a spike has arrived and whether its target has
spiked; both are forgotten when the step commits its weight changes.
-/

/-- A synapse with its weight and traces. -/
structure Synapse where
  pre : Nat
  post : Nat
  weight : Weight
  traces : Traces := .zero
  arrived : Bool := false
  spiked : Bool := false
  deriving Repr, DecidableEq, Inhabited

/-- The part of a synapse that is saved. -/
structure SynapseState where
  pre : Nat
  post : Nat
  mantissa : Int
  actual : Int
  traces : Traces
  deriving Repr, DecidableEq, Inhabited

namespace Synapse

/-- A synapse at rest. -/
def ofConnection (quantizer : Quantizer) (connection : Connection) : Synapse :=
  { pre := connection.pre
    post := connection.post
    weight := quantizer.quantize connection.weight }

/-- Whether the synapse takes part in learning in this step. -/
def isTouched (synapse : Synapse) : Bool :=
  synapse.arrived || synapse.spiked

/-- The synapse after a spike has reached its target. -/
def arrive (synapse : Synapse) : Synapse :=
  { synapse with arrived := true }

/-- The synapse after its target has spiked. -/
def spike (synapse : Synapse) : Synapse :=
  { synapse with spiked := true }

/-- The synapse at the start of the next step. -/
def settle (synapse : Synapse) : Synapse :=
  { synapse with arrived := false, spiked := false }

/-- The synapse after one step of trace decay. -/
def decayTraces
    (synapse : Synapse)
    (params : Channels TraceParams)
    (mode : RoundingMode) :
    Draw Synapse := do
  let traces ← synapse.traces.decay params mode
  return { synapse with traces := traces }

/-- The synapse after the impulses of this step's spikes. -/
def addImpulses (synapse : Synapse) (params : Channels TraceParams) : Synapse :=
  let traces := synapse.traces
  let traces := if synapse.arrived then traces.onPreSpike params else traces
  let traces := if synapse.spiked then traces.onPostSpike params else traces
  { synapse with traces := traces }

/-- The weight change that a rule asks for after this step's spikes. -/
def change? (synapse : Synapse) (rule : LearningRule) : Option Int :=
  if rule.isTriggered synapse.arrived synapse.spiked then
    some (rule.evaluate synapse.traces)
  else
    none

/-- The weight after a change, which is first rounded to the grid of weights. -/
def changedWeight
    (synapse : Synapse)
    (quantizer : Quantizer)
    (mode : RoundingMode)
    (change : Int) :
    Draw Weight := do
  let rounded ← mode.roundToMultiple change quantizer.precision
  return quantizer.quantize (Bounds.int64.clamp (synapse.weight.mantissa + rounded))

/-- The saved part of the synapse. -/
def state (synapse : Synapse) : SynapseState :=
  { pre := synapse.pre
    post := synapse.post
    mantissa := synapse.weight.mantissa
    actual := synapse.weight.actual
    traces := synapse.traces }

/-- The synapse with the weight and the traces of a saved state. -/
def restore (synapse : Synapse) (state : SynapseState) : Synapse :=
  { synapse with
    weight := { mantissa := state.mantissa, actual := state.actual }
    traces := state.traces }

/-- What keeps a saved state, found at a position, from being that of the synapse. -/
def violations
    (synapse : Synapse)
    (quantizer : Quantizer)
    (position : Nat)
    (state : SynapseState) :
    List Violation :=
  let path : Path := [.field "synapse_states", .item position]
  (if state.pre = synapse.pre ∧ state.post = synapse.post then
    []
  else
    [.otherConnection path state.pre state.post synapse.pre synapse.post]) ++
  (if quantizer.signMode.range.Contains state.mantissa then
    if quantizer.quantize state.mantissa = ⟨state.mantissa, state.actual⟩ then
      []
    else
      [.unrepresentableWeight path state.mantissa state.actual]
  else
    Violation.ofRange (path ++ [.field "mantissa"]) quantizer.signMode.range state.mantissa) ++
  Channel.all.flatMap fun channel =>
    Violation.ofRange (path ++ [.field "traces", .field channel.name]) Traces.range
      (state.traces.get channel)

end Synapse

end Neurochip
