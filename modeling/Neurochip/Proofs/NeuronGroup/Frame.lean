import Neurochip.NeuronGroup
import Neurochip.Proofs.Error.Methods
import Neurochip.Proofs.Random.Draws
import Neurochip.Tally

namespace Neurochip

/-!
# What a neuron group never changes

The frame of a neuron group is its parameters and the number of its neurons.
Neither inputs nor updates nor restored states change it, and an update uses up
the input of every neuron.
-/

theorem Delivery.addAll_append (first second : List Delivery) (input : Array Int) :
    Delivery.addAll (first ++ second) input =
      Delivery.addAll second (Delivery.addAll first input) :=
  List.foldl_append

@[simp] theorem Delivery.size_addAll (deliveries : List Delivery) (input : Array Int) :
    (Delivery.addAll deliveries input).size = input.size := by
  induction deliveries generalizing input with
  | nil => rfl
  | cons delivery rest inductionHypothesis =>
      rw [addAll, List.foldl_cons, ← addAll, inductionHypothesis, Array.size_modify]

/-- Each input grows by the deliveries to its neuron. -/
theorem Delivery.getElem?_addAll
    (deliveries : List Delivery)
    (input : Array Int)
    (neuron : Nat) :
    (addAll deliveries input)[neuron]? =
      input[neuron]?.map (· + balance Delivery.amount
        (deliveries.filter fun delivery => decide (delivery.neuron = neuron))) := by
  induction deliveries generalizing input with
  | nil => cases found : input[neuron]? <;> simp [addAll, found]
  | cons delivery rest inductionHypothesis =>
      rw [addAll, List.foldl_cons, ← addAll, inductionHypothesis, Array.getElem?_modify]
      cases input[neuron]? with
      | none => simp
      | some amount =>
          by_cases same : delivery.neuron = neuron
          · simp [same, Int.add_assoc]
          · simp [same]

namespace NeuronGroup

/-- A group of neurons is created at rest, from acceptable parameters. -/
theorem create_eq_ok_iff
    {size : Nat}
    {params : NeuronParams}
    {generator : Generator}
    {group : NeuronGroup} :
    create size params generator = .ok group ↔
      params.violations [] = [] ∧ atRest size params generator = group := by
  rw [create, check_bind_eq_ok_iff, Refusal.checkValid_eq_ok_iff, pure_eq_ok_iff]

/-- The parameters and the number of neurons of a group. -/
def frame (group : NeuronGroup) : NeuronParams × Nat :=
  (group.params, group.size)

/-- Between two steps no neuron has collected any input. -/
def AtRest (group : NeuronGroup) : Prop :=
  group.input = Array.replicate group.size 0

/-- Each neuron has a place for its input. -/
def Fitted (group : NeuronGroup) : Prop :=
  group.input.size = group.size

theorem AtRest.fitted {group : NeuronGroup} (atRest : group.AtRest) : group.Fitted := by
  rw [Fitted, show group.input = _ from atRest, Array.size_replicate]

theorem Fitted.addInputs
    {group : NeuronGroup}
    (fitted : group.Fitted)
    (deliveries : List Delivery) :
    (group.addInputs deliveries).Fitted := by
  rw [Fitted, NeuronGroup.addInputs, Delivery.size_addAll]
  exact fitted

/-- The neurons of a group with their inputs, updated in order. -/
def updatedNeurons (group : NeuronGroup) (mode : RoundingMode) :
    Draw (List (NeuronState × Bool)) :=
  updateEach group.params mode (group.states.zip group.input.toList)

/-- An update keeps the updated states, and the positions of those neurons that have spiked. -/
theorem update_eq (group : NeuronGroup) (mode : RoundingMode) :
    group.update mode =
      { params := group.params
        states := ((group.updatedNeurons mode).run group.generator).1.map Prod.fst
        input := Array.replicate group.input.size 0
        lastSpikes := spiking ((group.updatedNeurons mode).run group.generator).1
        generator := ((group.updatedNeurons mode).run group.generator).2 } :=
  rfl

theorem Fitted.frame_update
    {group : NeuronGroup}
    (fitted : group.Fitted)
    (mode : RoundingMode) :
    (group.update mode).frame = group.frame := by
  have sameLength : group.input.size = group.states.length := fitted
  simp [frame, update_eq, size, updatedNeurons, updateEach, sameLength]

theorem Fitted.atRest_update
    {group : NeuronGroup}
    (fitted : group.Fitted)
    (mode : RoundingMode) :
    (group.update mode).AtRest := by
  have sameSize : (group.update mode).size = group.size :=
    congrArg Prod.snd (fitted.frame_update mode)
  rw [AtRest, sameSize, update_eq, show group.input.size = group.size from fitted]

/-- The group with its states replaced by saved ones, without input and spikes. -/
def withStates (group : NeuronGroup) (states : List NeuronState) : NeuronGroup :=
  { group with
    states := states
    input := Array.replicate group.input.size 0
    lastSpikes := [] }

/-- The checks of saved states. -/
def checkStates (group : NeuronGroup) (states : List NeuronState) : Except Refusal Unit := do
  Refusal.checkLengths .neuronStates group.size states.length
  Refusal.checkValid (checkEach NeuronState.violations states)

/-- All saved states are checked before anything is written. -/
theorem carriesOut_restoreInPlace (states : List NeuronState) :
    (restoreInPlace states).CarriesOut fun group =>
      group.checkStates states >>= fun _ => pure (group.withStates states) := by
  unfold restoreInPlace checkStates
  apply Method.carriesOut_of_checks
  intro group _
  simp only [Method.call_bind, Method.call_modify, withStates]

theorem restore_eq (group : NeuronGroup) (states : List NeuronState) :
    group.restore states = group.checkStates states >>= fun _ => pure (group.withStates states) :=
  (carriesOut_restoreInPlace states).result_eq group

/-- Copies of groups are restored one by one. -/
theorem inCopies_restoreInPlace
    {groups : List NeuronGroup}
    {parts : List (List NeuronState)}
    (sameLength : groups.length = parts.length) :
    Method.inCopies restoreInPlace groups parts =
      (groups.zip parts).mapM fun (group, states) => group.restore states :=
  Method.inCopies_eq_mapM (fun states => (carriesOut_restoreInPlace states).self) sameLength

/-- States are restored exactly when there is one for each neuron and none violates anything. -/
theorem restore_eq_ok_iff
    {group after : NeuronGroup}
    {states : List NeuronState} :
    group.restore states = .ok after ↔
      group.size = states.length ∧
      checkEach NeuronState.violations states = [] ∧
      group.withStates states = after := by
  rw [restore_eq, check_bind_eq_ok_iff, checkStates, check_bind_eq_ok_iff,
    Refusal.checkLengths_eq_ok_iff, Refusal.checkValid_eq_ok_iff, pure_eq_ok_iff, and_assoc]

theorem frame_restore
    {group after : NeuronGroup}
    {states : List NeuronState}
    (accepted : group.restore states = .ok after) :
    after.frame = group.frame := by
  obtain ⟨sameLength, _, rfl⟩ := restore_eq_ok_iff.mp accepted
  rw [frame, frame, sameLength]
  rfl

theorem Fitted.atRest_restore
    {group after : NeuronGroup}
    (fitted : group.Fitted)
    {states : List NeuronState}
    (accepted : group.restore states = .ok after) :
    after.AtRest := by
  obtain ⟨sameLength, _, rfl⟩ := restore_eq_ok_iff.mp accepted
  rw [AtRest, withStates, size, ← sameLength, ← show group.input.size = group.size from fitted]

end NeuronGroup

end Neurochip
