import Neurochip.Network.Snapshot
import Neurochip.Params.Form

namespace Neurochip

/-!
# The JSON form of objects and snapshots

Saved states may carry fields that are not known here; these are ignored.
-/

open Json (Codec Problem Record)

namespace ObjectId

/-- Objects are written as their kind with their index. -/
def form : Codec ObjectId :=
  .variants
    (fun
      | neuronGroup index => .obj [("NeuronGroup", .nat index)]
      | spikeSource index => .obj [("SpikeSource", .nat index)]
      | synapses index => .obj [("Synapses", .nat index)])
    [.ofContent "NeuronGroup" .size neuronGroup,
      .ofContent "SpikeSource" .size spikeSource,
      .ofContent "Synapses" .size synapses]

end ObjectId

namespace Traces

/-- Five numbers in register order. -/
def valuesForm : Codec Traces where
  write traces := .ints traces.toList
  read
    | .arr items => do
        let values ← (items.take 5).mapM Codec.signed32.read
        match values with
        | [x1, x2, y1, y2, y3] =>
            if items.length = 5 then
              return ⟨x1, x2, y1, y2, y3⟩
            else
              throw (.tooLong items.length)
        | _ => throw (.tooShort items.length "an array of length 5")
    | other => .error (.wrongType other "an array of length 5")

/-- The fields of saved traces. -/
def record : Record Traces where
  name := "TraceState"
  blank := .zero
  fields := [.mandatory "values" valuesForm id (fun _ values => values)]
  closed := false

end Traces

namespace NeuronState

/-- The fields of a saved neuron. -/
def record : Record NeuronState where
  name := "NeuronState"
  blank := {}
  fields :=
    [.mandatory "voltage" .signed32 (·.voltage) ({ · with voltage := · }),
      .mandatory "current" .signed32 (·.current) ({ · with current := · }),
      .mandatory "refractory_counter" .unsigned8 (·.refractory) ({ · with refractory := · })]
  closed := false

end NeuronState

namespace SynapseState

/-- The fields of a saved synapse. -/
def record : Record SynapseState where
  name := "SynapseState"
  blank := { pre := 0, post := 0, mantissa := 0, actual := 0, traces := .zero }
  fields :=
    [.mandatory "pre" .size (·.pre) ({ · with pre := · }),
      .mandatory "post" .size (·.post) ({ · with post := · }),
      .mandatory "mantissa" .signed32 (·.mantissa) ({ · with mantissa := · }),
      .mandatory "actual" .signed32 (·.actual) ({ · with actual := · }),
      .mandatory "traces" Traces.record.codec (·.traces) ({ · with traces := · })]
  closed := false

end SynapseState

namespace Snapshot

/-- The fields of a snapshot. -/
def record : Record Snapshot where
  name := "StateSnapshot"
  blank := { neuronGroups := [], synapseGroups := [] }
  fields :=
    [.mandatory "neuron_groups" (.list (.list NeuronState.record.codec)) (·.neuronGroups)
        ({ · with neuronGroups := · }),
      .mandatory "synapse_groups" (.list (.list SynapseState.record.codec)) (·.synapseGroups)
        ({ · with synapseGroups := · })]
  closed := false

end Snapshot

end Neurochip
