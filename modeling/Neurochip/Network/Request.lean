import Neurochip.Network.Basic

namespace Neurochip

/-!
# Reading state variables

A request names an object, a variable and the elements it wants to see.
-/

/-- The elements of an object that a request asks for. -/
inductive Selection where
  | all
  | indices (indices : List Nat)
  deriving Repr, DecidableEq

/-- Why a request cannot be answered. -/
inductive RequestError where
  | unknownObject (object : ObjectId)
  | inapplicable (quantity : StateVariable) (object : ObjectId)
  | outOfRange (index : Nat) (object : ObjectId) (size : Nat)
  deriving Repr, DecidableEq

namespace RequestError

/-- The wording of the complaint. -/
def message : RequestError → String
  | unknownObject object =>
      s!"unknown object: {object.text}"
  | inapplicable quantity object =>
      s!"state variable {quantity.name} does not apply to {object.text}"
  | outOfRange index object size =>
      s!"index {index} out of range for {object.text} with {size} elements"

end RequestError

namespace StateVariable

/-- How the variable is read from a neuron, if neurons have it. -/
def ofNeuron? : StateVariable → Option (NeuronState → Int)
  | voltage => some (·.voltage)
  | current => some (·.current)
  | refractoryCounter => some (·.refractory)
  | trace _ => none
  | weightMantissa => none
  | actualWeight => none

/-- How the variable is read from a synapse, if synapses have it. -/
def ofSynapse? : StateVariable → Option (Synapse → Int)
  | voltage => none
  | current => none
  | refractoryCounter => none
  | trace channel => some (·.traces.get channel)
  | weightMantissa => some (·.weight.mantissa)
  | actualWeight => some (·.weight.actual)

end StateVariable

namespace Network

/-- The values of a variable for all elements of an object. -/
def values (network : Network) (object : ObjectId) (quantity : StateVariable) :
    Except RequestError (List Int) :=
  match object with
  | .neuronGroup index =>
      match network.neuronGroups[index]? with
      | none => .error (.unknownObject object)
      | some group =>
          match quantity.ofNeuron? with
          | some read => .ok (group.states.map read)
          | none => .error (.inapplicable quantity object)
  | .synapses index =>
      match network.synapseGroups[index]? with
      | none => .error (.unknownObject object)
      | some group =>
          match quantity.ofSynapse? with
          | some read => .ok (group.synapses.toList.map read)
          | none => .error (.inapplicable quantity object)
  | .spikeSource index =>
      if index < network.spikeSources.length then
        .error (.inapplicable quantity object)
      else
        .error (.unknownObject object)

/-- The values of a variable for the selected elements of an object. -/
def request
    (network : Network)
    (object : ObjectId)
    (quantity : StateVariable)
    (selection : Selection) :
    Except RequestError (List Int) := do
  let values ← network.values object quantity
  match selection with
  | .all => return values
  | .indices indices =>
      indices.mapM fun index =>
        match values[index]? with
        | some value => .ok value
        | none => .error (.outOfRange index object values.length)

end Network

end Neurochip
