import Neurochip.Trace
import Neurochip.Weight

namespace Neurochip

/-!
# Parameters

A network is described by its neuron groups, its spike sources, and the synapse
groups that connect them.  Objects are referred to by their position in these
lists.  Fields with a default may be left out of a description.
-/

/-- Parameters shared by the neurons of one group. -/
structure NeuronParams where
  /-- The number of steps from one spike of a neuron to the next step in which it integrates. -/
  refractoryPeriod : Nat := 1
  thresholdMantissa : Nat := 100
  decayVoltage : Nat := 0
  decayCurrent : Nat := 4096
  deriving Repr, DecidableEq, Inhabited

namespace NeuronParams

/-- The longest refractory period. -/
def maxRefractoryPeriod : Nat := 64

/-- The largest mantissa of a threshold. -/
def maxThresholdMantissa : Nat := 131071

/-- The voltage at which a neuron spikes, a signed word of 32 bits. -/
def threshold (params : NeuronParams) : Int :=
  wrapSigned 32 (params.thresholdMantissa * FixedPoint.mantissaUnit)

end NeuronParams

/-- A group of neurons with common parameters. -/
structure NeuronGroupParams where
  size : Nat
  neuron : NeuronParams := {}
  deriving Repr, DecidableEq, Inhabited

/-- A source that plays back spikes at given times. -/
structure SpikeSourceParams where
  size : Nat
  indices : List Nat
  times : List Nat
  /-- Zero plays the spikes once, otherwise they repeat every `period` steps. -/
  period : Nat := 0
  /-- Whether the spikes are already in order of time, then index. -/
  sorted : Bool := false
  deriving Repr, DecidableEq, Inhabited

/-- An object whose spikes synapses can transmit. -/
inductive SourceRef where
  | neuronGroup (group : Nat)
  | spikeSource (source : Nat)
  deriving Repr, DecidableEq

instance : Inhabited SourceRef := ⟨.neuronGroup 0⟩

namespace SourceRef

/-- How messages refer to the object. -/
def text : SourceRef → String
  | neuronGroup group => s!"NeuronGroup({group})"
  | spikeSource source => s!"SpikeSource({source})"

end SourceRef

/-- One synapse with its initial weight mantissa. -/
structure Connection where
  pre : Nat
  post : Nat
  weight : Int := 0
  deriving Repr, DecidableEq, Inhabited

/-- Parameters shared by the synapses of one group. -/
structure SynapseParams where
  delay : Nat := 0
  /-- A blank rule disables learning. -/
  learningRule : String := ""
  weightExponent : Int := 0
  signMode : SignMode := .excitatory
  weightBits : Nat := 8
  traces : Channels TraceParams := ⟨{}, {}, {}, {}, {}⟩
  deriving Repr, DecidableEq

instance : Inhabited SynapseParams := ⟨{}⟩

namespace SynapseParams

/-- The longest delay. -/
def maxDelay : Nat := 62

/-- The weight exponents that synapses support. -/
def exponentRange : Bounds :=
  { lower := -8, upper := 7 }

/-- The largest number of weight bits. -/
def maxWeightBits : Nat := 8

/-- The largest impulse of a trace. -/
def maxImpulse : Nat := 127

/-- How the weights of the group are represented. -/
def quantizer (params : SynapseParams) : Quantizer :=
  { signMode := params.signMode
    bits := params.weightBits
    exponent := params.weightExponent }

end SynapseParams

/-- A group of synapses from one source to one neuron group. -/
structure SynapseGroupParams where
  source : SourceRef
  target : Nat
  connections : List Connection
  synapse : SynapseParams := {}
  deriving Repr, DecidableEq, Inhabited

/-- Parameters of a run that do not describe the network itself. -/
structure TechnicalParams where
  seed : Nat := 0
  rounding : RoundingMode := .stochastic
  threads : Nat := 1
  deriving Repr, DecidableEq, Inhabited

/-- The description of a whole network. -/
structure NetworkParams where
  neuronGroups : List NeuronGroupParams := []
  spikeSources : List SpikeSourceParams := []
  synapseGroups : List SynapseGroupParams := []
  technical : TechnicalParams := {}
  deriving Repr, DecidableEq, Inhabited

namespace NetworkParams

/-- The number of neurons of an object, if it exists. -/
def sourceSize? (params : NetworkParams) : SourceRef → Option Nat
  | .neuronGroup group => params.neuronGroups[group]?.map (·.size)
  | .spikeSource source => params.spikeSources[source]?.map (·.size)

/-- The number of neurons of a neuron group, if it exists. -/
def targetSize? (params : NetworkParams) (group : Nat) : Option Nat :=
  params.neuronGroups[group]?.map (·.size)

end NetworkParams

end Neurochip
