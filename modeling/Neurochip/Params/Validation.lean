import Neurochip.Params.Violation

namespace Neurochip

/-!
# Checking parameters

Each check lists every violation it finds, field by field in the order of the
description: neuron groups, spike sources, synapse groups, technical
parameters.  A description is accepted when its list is empty.
-/

/-- Applies a check to every item of a list together with its position. -/
def checkEach (check : Nat → α → List Violation) (items : List α) : List Violation :=
  items.zipIdx.flatMap fun (item, index) => check index item

namespace NeuronParams

/-- The refractory periods that neurons support. -/
def refractoryRange : Bounds :=
  { lower := 1, upper := maxRefractoryPeriod }

/-- What is wrong with the parameters found at a path. -/
def violations (params : NeuronParams) (path : Path) : List Violation :=
  Violation.ofRange (path ++ [.field "refractory_period"]) refractoryRange params.refractoryPeriod ++
  Violation.ofMaximum (path ++ [.field "threshold_v_mant"]) maxThresholdMantissa
    params.thresholdMantissa ++
  Violation.ofMaximum (path ++ [.field "decay_v"]) FixedPoint.decayScale params.decayVoltage ++
  Violation.ofMaximum (path ++ [.field "decay_i"]) FixedPoint.decayScale params.decayCurrent

end NeuronParams

/-- The spike of one neuron of a source. -/
structure SpikeEvent where
  time : Nat
  index : Nat
  deriving Repr, DecidableEq, Inhabited

namespace SpikeEvent

/-- Events are in order by time, then by index. -/
def atMost (left right : SpikeEvent) : Bool :=
  left.time < right.time || (left.time == right.time && left.index ≤ right.index)

/-- The events that equal the one after them. -/
def repeated : List SpikeEvent → List SpikeEvent
  | [] => []
  | [_] => []
  | event :: next :: rest =>
      if event = next then
        event :: repeated (next :: rest)
      else
        repeated (next :: rest)

end SpikeEvent

namespace SpikeSourceParams

/-- The events of a source in the order in which they are played. -/
def events (params : SpikeSourceParams) : List SpikeEvent :=
  let events := List.zipWith SpikeEvent.mk params.times params.indices
  if params.sorted then events else events.mergeSort SpikeEvent.atMost

/-- What is wrong with the source found at a path. -/
def violations (params : SpikeSourceParams) (path : Path) : List Violation :=
  checkEach
    (fun position index =>
      Violation.ofLimit (path ++ [.field "indices", .item position]) .neuronCount params.size index)
    params.indices ++
  (if params.period = 0 then
    []
  else
    checkEach
      (fun position time =>
        Violation.ofLimit (path ++ [.field "times", .item position]) .period params.period time)
      params.times) ++
  (SpikeEvent.repeated params.events).map fun event =>
    .repeatedEvent (path ++ [.field "indices"]) event.index event.time

end SpikeSourceParams

namespace SignMode

/-- The mantissas found in a list at a path that this sign does not allow. -/
def violations (mode : SignMode) (path : Path) (mantissas : List Int) : List Violation :=
  checkEach
    (fun position mantissa =>
      if mode.range.Contains mantissa then
        []
      else
        [.weightOutsideRange (path ++ [.item position, .field "weight"]) mode mantissa])
    mantissas

end SignMode

namespace SynapseParams

/-- What is wrong with the parameters found at a path. -/
def violations (params : SynapseParams) (path : Path) : List Violation :=
  Violation.ofMaximum (path ++ [.field "delay"]) maxDelay params.delay ++
  Violation.ofRange (path ++ [.field "w_exp"]) exponentRange params.weightExponent ++
  Violation.ofMaximum (path ++ [.field "num_weight_bits"]) maxWeightBits params.weightBits ++
  Channel.all.flatMap fun channel =>
    Violation.ofMaximum (path ++ [.field "traces", .field channel.name, .field "impulse"]) maxImpulse
      (params.traces.get channel).impulse

end SynapseParams

namespace Connection

/-- The ends of a connection that lie outside the objects it connects, where these exist. -/
def violations
    (connection : Connection)
    (path : Path)
    (sourceSize targetSize : Option Nat) :
    List Violation :=
  (match sourceSize with
    | none => []
    | some size => Violation.ofLimit (path ++ [.field "pre"]) .sourceSize size connection.pre) ++
  (match targetSize with
    | none => []
    | some size => Violation.ofLimit (path ++ [.field "post"]) .targetSize size connection.post)

end Connection

namespace SynapseGroupParams

/-- The initial mantissas of a group. -/
def weights (params : SynapseGroupParams) : List Int :=
  params.connections.map (·.weight)

/-- What is wrong with the group found at a path of a network. -/
def violations
    (params : SynapseGroupParams)
    (path : Path)
    (network : NetworkParams) :
    List Violation :=
  let sourceSize := network.sourceSize? params.source
  let targetSize := network.targetSize? params.target
  (if sourceSize.isNone then
    [.unknownSource (path ++ [.field "source"]) params.source]
  else
    []) ++
  (if targetSize.isNone then
    [.unknownTarget (path ++ [.field "target_group"]) params.target]
  else
    []) ++
  checkEach
    (fun position connection =>
      connection.violations (path ++ [.field "connections", .item position])
        sourceSize targetSize)
    params.connections ++
  params.synapse.signMode.violations (path ++ [.field "connections"]) params.weights ++
  params.synapse.violations (path ++ [.field "synapse_params"])

end SynapseGroupParams

namespace TechnicalParams

/-- What is wrong with the parameters on a machine with the given number of processors. -/
def violations (params : TechnicalParams) (processors : Nat) : List Violation :=
  if params.threads = 0 then
    [.noThreads]
  else if processors < params.threads then
    [.tooManyThreads]
  else
    []

end TechnicalParams

namespace NetworkParams

/-- What is wrong with a network on a machine with the given number of processors. -/
def violations (params : NetworkParams) (processors : Nat) : List Violation :=
  checkEach
    (fun index group =>
      group.neuron.violations
        [.field "neuron_groups", .item index, .field "neuron_params"])
    params.neuronGroups ++
  checkEach
    (fun index source => source.violations [.field "spike_sources", .item index])
    params.spikeSources ++
  checkEach
    (fun index group => group.violations [.field "synapse_groups", .item index] params)
    params.synapseGroups ++
  params.technical.violations processors

end NetworkParams

end Neurochip
