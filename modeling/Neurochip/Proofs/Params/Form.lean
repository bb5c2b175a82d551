import Neurochip.Params.Form
import Neurochip.Proofs.Json.Records

namespace Neurochip

/-!
# Descriptions are read back

The form of every structure of a network description is lawful: fields that may
be left out are read as their defaults, and no other fields are accepted.  The
names of the fields that may be left out do not occur as names of other fields.
-/

open Json (Codec Field Record)

namespace NetworkParams

/-- The names of all fields that may be left out, at any level of a description. -/
def optionalFields : List String :=
  NeuronParams.record.optionalNames ++ NeuronGroupParams.record.optionalNames ++
    SpikeSourceParams.record.optionalNames ++ Connection.record.optionalNames ++
    TraceParams.record.optionalNames ++ TraceParams.channelsRecord.optionalNames ++
    SynapseParams.record.optionalNames ++ SynapseGroupParams.record.optionalNames ++
    TechnicalParams.record.optionalNames ++ NetworkParams.record.optionalNames

example :
    optionalFields =
      ["refractory_period", "threshold_v_mant", "decay_v", "decay_i", "neuron_params", "period",
        "sorted", "weight", "impulse", "tau", "x1", "x2", "y1", "y2", "y3", "delay",
        "learning_rule", "w_exp", "sign_mode", "num_weight_bits", "traces", "synapse_params",
        "seed", "rounding_mode", "num_threads", "neuron_groups", "spike_sources",
        "synapse_groups", "technical_params"] :=
  rfl

end NetworkParams

open NetworkParams (optionalFields)

namespace RoundingMode

theorem lawful_form : form.Lawful true optionalFields (fun _ => True) (fun _ mode => mode) :=
  Codec.lawful_names fun mode => by cases mode <;> rfl

end RoundingMode

namespace SignMode

theorem lawful_form : form.Lawful true optionalFields (fun _ => True) (fun _ mode => mode) :=
  Codec.lawful_names fun mode => by cases mode <;> rfl

end SignMode

namespace SourceRef

/-- Whether the index fits the word that it is written as. -/
def InWords : SourceRef → Prop
  | neuronGroup group => group < 2 ^ 64
  | spikeSource source => source < 2 ^ 64

theorem lawful_form : form.Lawful true optionalFields InWords (fun _ source => source) := by
  refine Codec.lawful_variants ?_ ?_
  · rintro (group | source)
    · exact ⟨"NeuronGroup", _, rfl, Json.flat_int group, by decide⟩
    · exact ⟨"SpikeSource", _, rfl, Json.flat_int source, by decide⟩
  · rintro (group | source) words
    · exact congrArg (Except.map neuronGroup)
        ((@Codec.lawful_size true optionalFields).read_write words)
    · exact congrArg (Except.map spikeSource)
        ((@Codec.lawful_size true optionalFields).read_write words)

end SourceRef

namespace NeuronParams

/-- Whether the numbers fit the words that they are written as. -/
structure InWords (params : NeuronParams) : Prop where
  refractoryPeriod : params.refractoryPeriod < 2 ^ 8
  thresholdMantissa : params.thresholdMantissa < 2 ^ 32
  decayVoltage : params.decayVoltage < 2 ^ 16
  decayCurrent : params.decayCurrent < 2 ^ 16

/-- The parameters with the fields that are left out at their defaults. -/
def withDefaults (omitted : Places) (params : NeuronParams) : NeuronParams where
  refractoryPeriod := omitted.orDefault "refractory_period" 1 params.refractoryPeriod
  thresholdMantissa := omitted.orDefault "threshold_v_mant" 100 params.thresholdMantissa
  decayVoltage := omitted.orDefault "decay_v" 0 params.decayVoltage
  decayCurrent := omitted.orDefault "decay_i" 4096 params.decayCurrent

theorem lawful_record : record.codec.Lawful true optionalFields InWords withDefaults := by
  have regular : record.Regular true optionalFields InWords _ :=
    { fields :=
        .cons (Field.takes_optional Codec.lawful_unsigned8 (fun _ => rfl)
          fun _ words => words.refractoryPeriod) <|
        .cons (Field.takes_optional Codec.lawful_unsigned32 (fun _ => rfl)
          fun _ words => words.thresholdMantissa) <|
        .cons (Field.takes_optional Codec.lawful_unsigned16 (fun _ => rfl)
          fun _ words => words.decayVoltage) <|
        .cons (Field.takes_optional Codec.lawful_unsigned16 (fun _ => rfl)
          fun _ words => words.decayCurrent) .nil
      distinct := by decide
      independent := by simp [Record.Independent, Field.takingIfPresent]
      policy := rfl
      several := by decide }
  exact regular.lawful (fun _ _ => rfl) fun _ => rfl

end NeuronParams

namespace NeuronGroupParams

/-- Whether the numbers fit the words that they are written as. -/
structure InWords (group : NeuronGroupParams) : Prop where
  size : group.size < 2 ^ 64
  neuron : group.neuron.InWords

/-- The group with the fields that are left out at their defaults. -/
def withDefaults (omitted : Places) (group : NeuronGroupParams) : NeuronGroupParams where
  size := group.size
  neuron := omitted.orDefault "neuron_params" {}
    (group.neuron.withDefaults (omitted.inside (.field "neuron_params")))

theorem lawful_record : record.codec.Lawful true optionalFields InWords withDefaults := by
  have regular : record.Regular true optionalFields InWords _ :=
    { fields :=
        .cons (Field.takes_mandatory Codec.lawful_size
          (fun _ words => words.size) (by decide)) <|
        .cons (Field.takes_optional NeuronParams.lawful_record (fun _ => rfl)
          fun _ words => words.neuron) .nil
      distinct := by decide
      independent := by simp [Record.Independent, Field.taking, Field.takingIfPresent]
      policy := rfl
      several := by decide }
  exact regular.lawful (fun _ _ => rfl) fun _ => rfl

end NeuronGroupParams

namespace SpikeSourceParams

/-- Whether the numbers fit the words that they are written as. -/
structure InWords (source : SpikeSourceParams) : Prop where
  size : source.size < 2 ^ 64
  indices : ∀ index ∈ source.indices, index < 2 ^ 64
  times : ∀ time ∈ source.times, time < 2 ^ 64
  period : source.period < 2 ^ 64

/-- The source with the fields that are left out at their defaults. -/
def withDefaults (omitted : Places) (source : SpikeSourceParams) : SpikeSourceParams where
  size := source.size
  indices := source.indices
  times := source.times
  period := omitted.orDefault "period" 0 source.period
  sorted := omitted.orDefault "sorted" false source.sorted

theorem lawful_record : record.codec.Lawful true optionalFields InWords withDefaults := by
  have regular : record.Regular true optionalFields InWords _ :=
    { fields :=
        .cons (Field.takes_mandatory Codec.lawful_size
          (fun _ words => words.size) (by decide)) <|
        .cons (Field.takes_mandatory Codec.lawful_size.list_whole
          (fun _ words => words.indices) (by decide)) <|
        .cons (Field.takes_mandatory Codec.lawful_size.list_whole
          (fun _ words => words.times) (by decide)) <|
        .cons (Field.takes_optional Codec.lawful_size (fun _ => rfl)
          fun _ words => words.period) <|
        .cons (Field.takes_optional Codec.lawful_flag (fun _ => rfl)
          fun _ _ => trivial) .nil
      distinct := by decide
      independent := by simp [Record.Independent, Field.taking, Field.takingIfPresent]
      policy := rfl
      several := by decide }
  exact regular.lawful (fun _ _ => rfl) fun _ => rfl

end SpikeSourceParams

namespace Connection

/-- Whether the numbers fit the words that they are written as. -/
structure InWords (connection : Connection) : Prop where
  pre : connection.pre < 2 ^ 64
  post : connection.post < 2 ^ 64
  weight : Bounds.int32.Contains connection.weight

/-- The connection with the fields that are left out at their defaults. -/
def withDefaults (omitted : Places) (connection : Connection) : Connection where
  pre := connection.pre
  post := connection.post
  weight := omitted.orDefault "weight" 0 connection.weight

theorem lawful_record : record.codec.Lawful true optionalFields InWords withDefaults := by
  have regular : record.Regular true optionalFields InWords _ :=
    { fields :=
        .cons (Field.takes_mandatory Codec.lawful_size
          (fun _ words => words.pre) (by decide)) <|
        .cons (Field.takes_mandatory Codec.lawful_size
          (fun _ words => words.post) (by decide)) <|
        .cons (Field.takes_optional (Codec.lawful_integer _ _) (fun _ => rfl)
          fun _ words => words.weight) .nil
      distinct := by decide
      independent := by simp [Record.Independent, Field.taking, Field.takingIfPresent]
      policy := rfl
      several := by decide }
  exact regular.lawful (fun _ _ => rfl) fun _ => rfl

end Connection

namespace TraceParams

/-- Whether the numbers fit the words that they are written as. -/
structure InWords (params : TraceParams) : Prop where
  impulse : params.impulse < 2 ^ 8
  tau : params.tau < 2 ^ 32

/-- The parameters with the fields that are left out at their defaults. -/
def withDefaults (omitted : Places) (params : TraceParams) : TraceParams where
  impulse := omitted.orDefault "impulse" 0 params.impulse
  tau := omitted.orDefault "tau" 0 params.tau

theorem lawful_record : record.codec.Lawful true optionalFields InWords withDefaults := by
  have regular : record.Regular true optionalFields InWords _ :=
    { fields :=
        .cons (Field.takes_optional Codec.lawful_unsigned8 (fun _ => rfl)
          fun _ words => words.impulse) <|
        .cons (Field.takes_optional Codec.lawful_unsigned32 (fun _ => rfl)
          fun _ words => words.tau) .nil
      distinct := by decide
      independent := by simp [Record.Independent, Field.takingIfPresent]
      policy := rfl
      several := by decide }
  exact regular.lawful (fun _ _ => rfl) fun _ => rfl

/-- The parameters of all traces with the fields that are left out at their defaults. -/
def channelsWithDefaults (omitted : Places) (traces : Channels TraceParams) :
    Channels TraceParams :=
  .ofFn fun channel => omitted.orDefault channel.name {}
    ((traces.get channel).withDefaults (omitted.inside (.field channel.name)))

theorem lawful_channelsRecord :
    channelsRecord.codec.Lawful true optionalFields
      (fun traces => ∀ channel, (traces.get channel).InWords) channelsWithDefaults := by
  have keeps : ∀ (channel : Channel) (traces : Channels TraceParams),
      traces.set channel (traces.get channel) = traces := by
    intro channel traces
    cases channel <;> rfl
  have regular : channelsRecord.Regular true optionalFields
      (fun traces => ∀ channel, (traces.get channel).InWords) _ :=
    { fields :=
        .cons (Field.takes_optional lawful_record (keeps .x1) fun _ words => words .x1) <|
        .cons (Field.takes_optional lawful_record (keeps .x2) fun _ words => words .x2) <|
        .cons (Field.takes_optional lawful_record (keeps .y1) fun _ words => words .y1) <|
        .cons (Field.takes_optional lawful_record (keeps .y2) fun _ words => words .y2) <|
        .cons (Field.takes_optional lawful_record (keeps .y3) fun _ words => words .y3) .nil
      distinct := by decide
      independent := by
        simp [Record.Independent, Field.takingIfPresent, Channels.set, Channels.ofFn, Channels.get]
      policy := rfl
      several := by decide }
  exact regular.lawful (fun _ _ => rfl) fun _ => rfl

end TraceParams

namespace SynapseParams

/-- Whether the numbers fit the words that they are written as. -/
structure InWords (params : SynapseParams) : Prop where
  delay : params.delay < 2 ^ 8
  weightExponent : -128 ≤ params.weightExponent ∧ params.weightExponent ≤ 127
  weightBits : params.weightBits < 2 ^ 8
  traces : ∀ channel, (params.traces.get channel).InWords

/-- The parameters with the fields that are left out at their defaults. -/
def withDefaults (omitted : Places) (params : SynapseParams) : SynapseParams where
  delay := omitted.orDefault "delay" 0 params.delay
  learningRule := omitted.orDefault "learning_rule" "" params.learningRule
  weightExponent := omitted.orDefault "w_exp" 0 params.weightExponent
  signMode := omitted.orDefault "sign_mode" .excitatory params.signMode
  weightBits := omitted.orDefault "num_weight_bits" 8 params.weightBits
  traces := omitted.orDefault "traces" ⟨{}, {}, {}, {}, {}⟩
    (TraceParams.channelsWithDefaults (omitted.inside (.field "traces")) params.traces)

theorem lawful_record : record.codec.Lawful true optionalFields InWords withDefaults := by
  have regular : record.Regular true optionalFields InWords _ :=
    { fields :=
        .cons (Field.takes_optional Codec.lawful_unsigned8 (fun _ => rfl)
          fun _ words => words.delay) <|
        .cons (Field.takes_optional Codec.lawful_string (fun _ => rfl)
          fun _ _ => trivial) <|
        .cons (Field.takes_optional (Codec.lawful_integer _ _) (fun _ => rfl)
          fun _ words => words.weightExponent) <|
        .cons (Field.takes_optional SignMode.lawful_form (fun _ => rfl)
          fun _ _ => trivial) <|
        .cons (Field.takes_optional Codec.lawful_unsigned8 (fun _ => rfl)
          fun _ words => words.weightBits) <|
        .cons (Field.takes_optional TraceParams.lawful_channelsRecord (fun _ => rfl)
          fun _ words => words.traces) .nil
      distinct := by decide
      independent := by simp [Record.Independent, Field.takingIfPresent]
      policy := rfl
      several := by decide }
  exact regular.lawful (fun _ _ => rfl) fun _ => rfl

end SynapseParams

namespace SynapseGroupParams

/-- Whether the numbers fit the words that they are written as. -/
structure InWords (group : SynapseGroupParams) : Prop where
  source : group.source.InWords
  target : group.target < 2 ^ 64
  connections : ∀ connection ∈ group.connections, connection.InWords
  synapse : group.synapse.InWords

/-- The group with the fields that are left out at their defaults. -/
def withDefaults (omitted : Places) (group : SynapseGroupParams) : SynapseGroupParams where
  source := group.source
  target := group.target
  connections := group.connections.mapIdx fun index connection =>
    connection.withDefaults ((omitted.inside (.field "connections")).inside (.item index))
  synapse := omitted.orDefault "synapse_params" {}
    (group.synapse.withDefaults (omitted.inside (.field "synapse_params")))

theorem lawful_record : record.codec.Lawful true optionalFields InWords withDefaults := by
  have regular : record.Regular true optionalFields InWords _ :=
    { fields :=
        .cons (Field.takes_mandatory SourceRef.lawful_form
          (fun _ words => words.source) (by decide)) <|
        .cons (Field.takes_mandatory Codec.lawful_size
          (fun _ words => words.target) (by decide)) <|
        .cons (Field.takes_mandatory Connection.lawful_record.list
          (fun _ words => words.connections) (by decide)) <|
        .cons (Field.takes_optional SynapseParams.lawful_record (fun _ => rfl)
          fun _ words => words.synapse) .nil
      distinct := by decide
      independent := by simp [Record.Independent, Field.taking, Field.takingIfPresent]
      policy := rfl
      several := by decide }
  refine regular.lawful (fun _ _ => rfl) fun group => ?_
  exact congrArg (fun connections => { group with connections := connections })
    (Connection.lawful_record.list.withDefaults_nowhere group.connections)

end SynapseGroupParams

namespace TechnicalParams

/-- Whether the numbers fit the words that they are written as. -/
structure InWords (params : TechnicalParams) : Prop where
  seed : params.seed < 2 ^ 64
  threads : params.threads < 2 ^ 64

/-- The parameters with the fields that are left out at their defaults. -/
def withDefaults (omitted : Places) (params : TechnicalParams) : TechnicalParams where
  seed := omitted.orDefault "seed" 0 params.seed
  rounding := omitted.orDefault "rounding_mode" .stochastic params.rounding
  threads := omitted.orDefault "num_threads" 1 params.threads

theorem lawful_record : record.codec.Lawful true optionalFields InWords withDefaults := by
  have regular : record.Regular true optionalFields InWords _ :=
    { fields :=
        .cons (Field.takes_optional Codec.lawful_unsigned64 (fun _ => rfl)
          fun _ words => words.seed) <|
        .cons (Field.takes_optional RoundingMode.lawful_form (fun _ => rfl)
          fun _ _ => trivial) <|
        .cons (Field.takes_optional Codec.lawful_size (fun _ => rfl)
          fun _ words => words.threads) .nil
      distinct := by decide
      independent := by simp [Record.Independent, Field.takingIfPresent]
      policy := rfl
      several := by decide }
  exact regular.lawful (fun _ _ => rfl) fun _ => rfl

end TechnicalParams

namespace NetworkParams

/-- Whether the numbers fit the words that they are written as. -/
structure InWords (params : NetworkParams) : Prop where
  neuronGroups : ∀ group ∈ params.neuronGroups, group.InWords
  spikeSources : ∀ source ∈ params.spikeSources, source.InWords
  synapseGroups : ∀ group ∈ params.synapseGroups, group.InWords
  technical : params.technical.InWords

/-- The parameters with the fields that are left out at their defaults. -/
def withDefaults (omitted : Places) (params : NetworkParams) : NetworkParams where
  neuronGroups := omitted.orDefault "neuron_groups" [] <|
    params.neuronGroups.mapIdx fun index group =>
      group.withDefaults ((omitted.inside (.field "neuron_groups")).inside (.item index))
  spikeSources := omitted.orDefault "spike_sources" [] <|
    params.spikeSources.mapIdx fun index source =>
      source.withDefaults ((omitted.inside (.field "spike_sources")).inside (.item index))
  synapseGroups := omitted.orDefault "synapse_groups" [] <|
    params.synapseGroups.mapIdx fun index group =>
      group.withDefaults ((omitted.inside (.field "synapse_groups")).inside (.item index))
  technical := omitted.orDefault "technical_params" {}
    (params.technical.withDefaults (omitted.inside (.field "technical_params")))

theorem lawful_record : record.codec.Lawful true optionalFields InWords withDefaults := by
  have regular : record.Regular true optionalFields InWords _ :=
    { fields :=
        .cons (Field.takes_optional NeuronGroupParams.lawful_record.list (fun _ => rfl)
          fun _ words => words.neuronGroups) <|
        .cons (Field.takes_optional SpikeSourceParams.lawful_record.list (fun _ => rfl)
          fun _ words => words.spikeSources) <|
        .cons (Field.takes_optional SynapseGroupParams.lawful_record.list (fun _ => rfl)
          fun _ words => words.synapseGroups) <|
        .cons (Field.takes_optional TechnicalParams.lawful_record (fun _ => rfl)
          fun _ words => words.technical) .nil
      distinct := by decide
      independent := by simp [Record.Independent, Field.takingIfPresent]
      policy := rfl
      several := by decide }
  refine regular.lawful (fun _ _ => rfl) fun params => (NetworkParams.mk.injEq ..).mpr ?_
  exact ⟨NeuronGroupParams.lawful_record.list.withDefaults_nowhere params.neuronGroups,
    SpikeSourceParams.lawful_record.list.withDefaults_nowhere params.spikeSources,
    SynapseGroupParams.lawful_record.list.withDefaults_nowhere params.synapseGroups, rfl⟩

end NetworkParams

end Neurochip
