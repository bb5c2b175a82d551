import Neurochip.Capacity
import Neurochip.Method
import Neurochip.Neuron

namespace Neurochip

/-!
# Groups of neurons

The neurons of a group have common parameters and are updated together, in
order.  Between two updates each neuron collects input.  The main statement says
that an update with checked sums, where it comes to an end, is the update.
-/

/-- Input for one neuron of a group. -/
structure Delivery where
  neuron : Nat
  amount : Int
  deriving Repr, DecidableEq

/-- Adds deliveries to collected inputs, one for each neuron. -/
def Delivery.addAll (deliveries : List Delivery) (input : Array Int) : Array Int :=
  deliveries.foldl (fun input delivery => input.modify delivery.neuron (· + delivery.amount))
    input

/-- The collected inputs of some neurons before any delivery, if there is room for them. -/
def Delivery.noInput? (neurons : Nat) : Option (Array Int) :=
  (Capacity.roomFor? neurons).map fun neurons => Array.replicate neurons 0

/-- Neurons with common parameters, the input collected for their next step, and their last spikes. -/
structure NeuronGroup where
  params : NeuronParams
  states : List NeuronState
  input : Array Int
  lastSpikes : List Nat
  generator : Generator

namespace NeuronGroup

/-- A group of neurons at rest. -/
def atRest (size : Nat) (params : NeuronParams) (generator : Generator) : NeuronGroup :=
  { params := params
    states := List.replicate size {}
    input := Array.replicate size 0
    lastSpikes := []
    generator := generator }

/-- A group of neurons at rest, if the parameters are acceptable. -/
def create
    (size : Nat)
    (params : NeuronParams)
    (generator : Generator) :
    Except Refusal NeuronGroup := do
  Refusal.checkValid (params.violations [])
  return atRest size params generator

/-- A group with acceptable parameters; there is none without room for its neurons. -/
def create?
    (size : Nat)
    (params : NeuronParams)
    (generator : Generator) :
    Except Refusal (Option NeuronGroup) := do
  Refusal.checkValid (params.violations [])
  return (Capacity.roomFor? size).map fun size => atRest size params generator

/-- The number of neurons. -/
def size (group : NeuronGroup) : Nat :=
  group.states.length

/-- Adds to the input of some neurons; a neuron outside the group has no input. -/
def addInputs (group : NeuronGroup) (deliveries : List Delivery) : NeuronGroup :=
  { group with input := Delivery.addAll deliveries group.input }

/-- Adds to the input of one neuron, if it belongs to the group and the sum is a word of 64 bits. -/
def addInput? (group : NeuronGroup) (delivery : Delivery) : Option NeuronGroup :=
  match group.input[delivery.neuron]? with
  | none => none
  | some input =>
      if Bounds.int64.Contains (input + delivery.amount) then
        some (group.addInputs [delivery])
      else
        none

/-- The positions of the neurons that spiked. -/
def spiking (updated : List (NeuronState × Bool)) : List Nat :=
  updated.zipIdx.filterMap fun ((_, spiked), index) => if spiked then some index else none

/-- One step of some neurons, each with its input, in order. -/
def updateEach
    (params : NeuronParams)
    (mode : RoundingMode)
    (neurons : List (NeuronState × Int)) :
    Draw (List (NeuronState × Bool)) :=
  neurons.mapM fun (state, input) => state.update input params mode

/-- One step of all neurons in order, which uses up their input. -/
def update (group : NeuronGroup) (mode : RoundingMode) : NeuronGroup :=
  let (updated, generator) :=
    (updateEach group.params mode (group.states.zip group.input.toList)).run group.generator
  { params := group.params
    states := updated.map Prod.fst
    input := Array.replicate group.input.size 0
    lastSpikes := spiking updated
    generator := generator }

/-- How far a step of some neurons in order has come. -/
structure Advance where
  updated : List (NeuronState × Bool)
  /-- If the step of a neuron has ended early, the neurons after it with their inputs. -/
  waiting? : Option (List (NeuronState × Int))

/-- One step of some neurons in order, up to the first whose step ends early. -/
def advance
    (params : NeuronParams)
    (mode : RoundingMode) :
    List (NeuronState × Int) → Draw Advance
  | [] => return ⟨[], none⟩
  | (state, input) :: rest => do
      match ← state.updateChecked input params mode with
      | .ok updated =>
          let others ← advance params mode rest
          return ⟨updated :: others.updated, others.waiting?⟩
      | .error left =>
          return ⟨[(left, false)], some rest⟩

/--
One step of all neurons in order.  If the step of a neuron ends early, the error
holds the group in which the neurons after it have not been updated yet.
-/
def updateChecked (group : NeuronGroup) (mode : RoundingMode) : Except NeuronGroup NeuronGroup :=
  let (reached, generator) :=
    (advance group.params mode (group.states.zip group.input.toList)).run group.generator
  let lastSpikes := spiking reached.updated
  match reached.waiting? with
  | none =>
      .ok
        { params := group.params
          states := reached.updated.map Prod.fst
          input := Array.replicate group.input.size 0
          lastSpikes := lastSpikes
          generator := generator }
  | some waiting =>
      .error
        { params := group.params
          states := reached.updated.map Prod.fst ++ waiting.map Prod.fst
          input := (List.replicate reached.updated.length 0 ++ waiting.map Prod.snd).toArray
          lastSpikes := lastSpikes
          generator := generator }

/-- Where no step ends early, all neurons are updated. -/
private theorem run_updateEach_of_advance
    {params : NeuronParams}
    {mode : RoundingMode}
    {neurons : List (NeuronState × Int)}
    {generator : Generator}
    (finished : ((advance params mode neurons).run generator).1.waiting? = none) :
    (updateEach params mode neurons).run generator =
      (((advance params mode neurons).run generator).1.updated,
        ((advance params mode neurons).run generator).2) := by
  induction neurons generalizing generator with
  | nil => rfl
  | cons neuron rest inductionHypothesis =>
      obtain ⟨state, input⟩ := neuron
      simp only [updateEach, List.mapM_cons, Draw.run_bind, Draw.run_pure, advance] at *
      cases reached :
          ((state.updateChecked input params mode).run generator).1 with
      | error left => simp [reached] at finished
      | ok updated =>
          simp only [reached, Draw.run_bind, Draw.run_pure] at finished ⊢
          rw [NeuronState.run_updateChecked_of_ok (Prod.ext reached rfl),
            inductionHypothesis finished]

/-- A step that does not end early is the step. -/
theorem eq_update_of_updateChecked
    {group after : NeuronGroup}
    {mode : RoundingMode}
    (finished : group.updateChecked mode = .ok after) :
    after = group.update mode := by
  unfold updateChecked at finished
  split at finished
  rename_i reached generator shape
  split at finished
  · rename_i complete
    cases finished
    have reachedAll := (congrArg (·.1.waiting?) shape).trans complete
    simp only [update, run_updateEach_of_advance reachedAll, shape]
  · cases finished

/-- Checks saved states, then writes them and forgets collected input and last spikes. -/
def restoreInPlace (states : List NeuronState) : Method NeuronGroup Unit := do
  let group ← get
  Refusal.checkLengths .neuronStates group.size states.length
  Refusal.checkValid (checkEach NeuronState.violations states)
  modify fun group => { group with states := states }
  modify fun group => { group with input := Array.replicate group.input.size 0 }
  modify fun group => { group with lastSpikes := [] }

/-- The group after saved states have been restored, unless they are refused. -/
def restore (group : NeuronGroup) (states : List NeuronState) : Except Refusal NeuronGroup :=
  (restoreInPlace states).result group

end NeuronGroup

end Neurochip
