import Neurochip.Params.Basic

namespace Neurochip

/-!
# Objects and state variables

The objects of a network and the variables of their elements have names under
which reports and requests refer to them.
-/

/-- An object of a network. -/
inductive ObjectId where
  | neuronGroup (index : Nat)
  | spikeSource (index : Nat)
  | synapses (index : Nat)
  deriving Repr, DecidableEq

instance : Inhabited ObjectId := ⟨.neuronGroup 0⟩

namespace ObjectId

/-- How reports refer to the object. -/
def text : ObjectId → String
  | neuronGroup index => s!"NeuronGroup({index})"
  | spikeSource index => s!"SpikeSource({index})"
  | synapses index => s!"Synapses({index})"

/-- The object that a synapse group takes its spikes from. -/
def ofSource : SourceRef → ObjectId
  | .neuronGroup group => neuronGroup group
  | .spikeSource source => spikeSource source

end ObjectId

/-- A quantity that neurons or synapses have. -/
inductive StateVariable where
  | voltage
  | current
  | refractoryCounter
  | trace (channel : Channel)
  | weightMantissa
  | actualWeight
  deriving Repr, DecidableEq

/-- A name that nothing has. -/
inductive UnknownName where
  | stateVariable (name : String)
  | trace (name : String)
  deriving Repr, DecidableEq

namespace UnknownName

/-- The wording of the complaint. -/
def message : UnknownName → String
  | stateVariable name => s!"unknown state variable: {name}"
  | trace name => s!"unknown trace: {name}"

end UnknownName

namespace Channel

/-- The channel with the given name, or a complaint. -/
def ofName (name : String) : Except UnknownName Channel :=
  match ofName? name with
  | some channel => .ok channel
  | none => .error (.trace name)

end Channel

namespace StateVariable

/-- The name under which requests refer to the variable. -/
def name : StateVariable → String
  | voltage => "v"
  | current => "I"
  | refractoryCounter => "refractory"
  | trace channel => channel.name
  | weightMantissa => "w"
  | actualWeight => "w_act"

/-- The name of the variable as a value in messages. -/
def title : StateVariable → String
  | voltage => "Voltage"
  | current => "Current"
  | refractoryCounter => "RefractoryCounter"
  | trace channel => s!"Trace({channel.title})"
  | weightMantissa => "WeightMantissa"
  | actualWeight => "ActualWeight"

/-- All variables. -/
def all : List StateVariable :=
  [voltage, current, refractoryCounter, weightMantissa, actualWeight] ++ Channel.all.map trace

/-- The variable with the given name, or a complaint. -/
def ofName (name : String) : Except UnknownName StateVariable :=
  match all.find? (·.name == name) with
  | some quantity => .ok quantity
  | none => .error (.stateVariable name)

end StateVariable

end Neurochip
