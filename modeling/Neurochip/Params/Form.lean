import Neurochip.Json.Record
import Neurochip.Params.Basic

namespace Neurochip

/-!
# The JSON form of parameters

Each structure of a network description is a record with named fields; the
ranges of numbers are those of their machine words.
-/

open Json (Codec Field Record)

namespace RoundingMode

/-- Rounding modes are written as their names. -/
def form : Codec RoundingMode :=
  .names name all

end RoundingMode

namespace SignMode

/-- Sign modes are written as their names. -/
def form : Codec SignMode :=
  .names name all

end SignMode

namespace SourceRef

/-- Source references are written as the kind of object with its index. -/
def form : Codec SourceRef :=
  .variants
    (fun
      | neuronGroup group => .obj [("NeuronGroup", .nat group)]
      | spikeSource source => .obj [("SpikeSource", .nat source)])
    [.ofContent "NeuronGroup" .size neuronGroup,
      .ofContent "SpikeSource" .size spikeSource]

end SourceRef

namespace NeuronParams

/-- The fields of neuron parameters. -/
def record : Record NeuronParams where
  name := "NeuronParams"
  blank := {}
  fields :=
    [.optional "refractory_period" .unsigned8 (·.refractoryPeriod)
        ({ · with refractoryPeriod := · }),
      .optional "threshold_v_mant" .unsigned32 (·.thresholdMantissa)
        ({ · with thresholdMantissa := · }),
      .optional "decay_v" .unsigned16 (·.decayVoltage) ({ · with decayVoltage := · }),
      .optional "decay_i" .unsigned16 (·.decayCurrent) ({ · with decayCurrent := · })]

end NeuronParams

namespace NeuronGroupParams

/-- The fields of a neuron group. -/
def record : Record NeuronGroupParams where
  name := "NeuronGroupParams"
  blank := { size := 0 }
  fields :=
    [.mandatory "num_neurons" .size (·.size) ({ · with size := · }),
      .optional "neuron_params" NeuronParams.record.codec (·.neuron) ({ · with neuron := · })]

end NeuronGroupParams

namespace SpikeSourceParams

/-- The fields of a spike source. -/
def record : Record SpikeSourceParams where
  name := "SpikeSourceParams"
  blank := { size := 0, indices := [], times := [] }
  fields :=
    [.mandatory "num_neurons" .size (·.size) ({ · with size := · }),
      .mandatory "indices" (.list .size) (·.indices) ({ · with indices := · }),
      .mandatory "times" (.list .size) (·.times) ({ · with times := · }),
      .optional "period" .size (·.period) ({ · with period := · }),
      .optional "sorted" .flag (·.sorted) ({ · with sorted := · })]

end SpikeSourceParams

namespace Connection

/-- The fields of a connection. -/
def record : Record Connection where
  name := "ConnectionParams"
  blank := { pre := 0, post := 0 }
  fields :=
    [.mandatory "pre" .size (·.pre) ({ · with pre := · }),
      .mandatory "post" .size (·.post) ({ · with post := · }),
      .optional "weight" .signed32 (·.weight) ({ · with weight := · })]

end Connection

namespace TraceParams

/-- The fields of the parameters of one trace. -/
def record : Record TraceParams where
  name := "TraceParams"
  blank := {}
  fields :=
    [.optional "impulse" .unsigned8 (·.impulse) ({ · with impulse := · }),
      .optional "tau" .unsigned32 (·.tau) ({ · with tau := · })]

/-- The fields of the parameters of all traces. -/
def channelsRecord : Record (Channels TraceParams) where
  name := "TraceChannelParams"
  blank := ⟨{}, {}, {}, {}, {}⟩
  fields :=
    Channel.all.map fun channel =>
      .optional channel.name record.codec (·.get channel) (·.set channel ·)

end TraceParams

namespace SynapseParams

/-- The fields of synapse parameters. -/
def record : Record SynapseParams where
  name := "SynapseParams"
  blank := {}
  fields :=
    [.optional "delay" .unsigned8 (·.delay) ({ · with delay := · }),
      .optional "learning_rule" .string (·.learningRule) ({ · with learningRule := · }),
      .optional "w_exp" .signed8 (·.weightExponent) ({ · with weightExponent := · }),
      .optional "sign_mode" SignMode.form (·.signMode) ({ · with signMode := · }),
      .optional "num_weight_bits" .unsigned8 (·.weightBits) ({ · with weightBits := · }),
      .optional "traces" TraceParams.channelsRecord.codec (·.traces) ({ · with traces := · })]

end SynapseParams

namespace SynapseGroupParams

/-- The fields of a synapse group. -/
def record : Record SynapseGroupParams where
  name := "SynapseGroupParams"
  blank := { source := default, target := 0, connections := [] }
  fields :=
    [.mandatory "source" SourceRef.form (·.source) ({ · with source := · }),
      .mandatory "target_group" .size (·.target) ({ · with target := · }),
      .mandatory "connections" (.list Connection.record.codec) (·.connections)
        ({ · with connections := · }),
      .optional "synapse_params" SynapseParams.record.codec (·.synapse)
        ({ · with synapse := · })]

end SynapseGroupParams

namespace TechnicalParams

/-- The fields of technical parameters. -/
def record : Record TechnicalParams where
  name := "TechnicalParams"
  blank := {}
  fields :=
    [.optional "seed" .unsigned64 (·.seed) ({ · with seed := · }),
      .optional "rounding_mode" RoundingMode.form (·.rounding) ({ · with rounding := · }),
      .optional "num_threads" .size (·.threads) ({ · with threads := · })]

end TechnicalParams

namespace NetworkParams

/-- The fields of a network description. -/
def record : Record NetworkParams where
  name := "NetworkParams"
  blank := {}
  fields :=
    [.optional "neuron_groups" (.list NeuronGroupParams.record.codec) (·.neuronGroups)
        ({ · with neuronGroups := · }),
      .optional "spike_sources" (.list SpikeSourceParams.record.codec) (·.spikeSources)
        ({ · with spikeSources := · }),
      .optional "synapse_groups" (.list SynapseGroupParams.record.codec) (·.synapseGroups)
        ({ · with synapseGroups := · }),
      .optional "technical_params" TechnicalParams.record.codec (·.technical)
        ({ · with technical := · })]

end NetworkParams

end Neurochip
