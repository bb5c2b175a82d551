import Neurochip.Proofs.Failure.Synapse

namespace Neurochip.SynapseGroup

/-!
# Setting, saving and restoring synapses does not fail

Weights that are set or compared are stored in words, and every saved state is
read from, checked against and written to the synapse at its position.
-/

variable {group : SynapseGroup}

/-- Replaces all weights by those for the given mantissas, each computed in words. -/
def setWeightsGuarded (group : SynapseGroup) (mantissas : List Int) :
    GuardedCheck SynapseGroup := do
  Refusal.checkLengths .synapseWeights group.size mantissas.length
  Refusal.checkValid (group.params.signMode.violations [.field "synapses"] mantissas)
  let weights ← liftM (mantissas.mapM group.quantizer.quantizeGuarded)
  return { group with
    synapses := (List.zipWith Synapse.withWeight group.synapses.toList weights).toArray }

/-- The saved part of each synapse, found at its position. -/
def statesGuarded (group : SynapseGroup) : Except Failure (List SynapseState) :=
  (List.range group.size).mapM fun position => do
    let synapse ← Guard.elementAt group.synapses position
    return synapse.state

/-- Does something with each state and the synapse at its position. -/
def forStates
    (group : SynapseGroup)
    (states : List SynapseState)
    (compute : Nat → Synapse × SynapseState → Except Failure β) :
    Except Failure (List β) :=
  states.zipIdx.mapM fun (state, position) => do
    let synapse ← Guard.elementAt group.synapses position
    compute position (synapse, state)

/-- Replaces all weights and traces by saved ones, if none of them violates anything. -/
def restoreGuarded (group : SynapseGroup) (states : List SynapseState) :
    GuardedCheck SynapseGroup := do
  Refusal.checkLengths .synapseStates group.size states.length
  let violations ← liftM (group.forStates states fun position (synapse, state) =>
    synapse.violationsGuarded group.quantizer position state)
  Refusal.checkValid violations.flatten
  let synapses ← liftM (group.forStates states fun _ (synapse, state) =>
    pure (synapse.restore state))
  return { group with synapses := synapses.toArray }

/-- Each synapse is found at its position when there are as many states as synapses. -/
theorem forStates_eq
    {states : List SynapseState}
    (sameLength : group.size = states.length)
    {compute : Nat → Synapse × SynapseState → Except Failure β}
    {answer : Nat → Synapse × SynapseState → β}
    (each : ∀ position pair, compute position pair = .ok (answer position pair)) :
    group.forStates states compute =
      .ok ((group.synapses.toList.zip states).zipIdx.map fun entry => answer entry.2 entry.1) := by
  refine mapM_eq_ok_iff.mpr (List.forall₂_iff_get.mpr ⟨by simp [← sameLength, size], ?_⟩)
  intro position inside _
  have inside : position < group.synapses.size := by
    simpa [← sameLength, size] using inside
  simp only [List.get_eq_getElem, List.getElem_zipIdx, List.getElem_map, List.getElem_zip]
  rw [bind_of_eq_ok (Guard.elementAt_of_some (Array.getElem?_eq_getElem (by simpa using inside)))]
  simp [each]

theorem statesGuarded_eq (group : SynapseGroup) : group.statesGuarded = .ok group.states := by
  refine mapM_eq_ok_iff.mpr (List.forall₂_iff_get.mpr ⟨by simp [states, size], ?_⟩)
  intro position inside _
  have inside : position < group.synapses.size := by simpa [size] using inside
  simp only [List.get_eq_getElem, List.getElem_range, states, List.getElem_map]
  rw [bind_of_eq_ok (Guard.elementAt_of_some (Array.getElem?_eq_getElem inside))]
  rfl

/-- Weights are set without failure. -/
theorem agrees_setWeights
    (supported : -8 ≤ group.quantizer.exponent ∧ group.quantizer.exponent ≤ 7)
    (mantissas : List Int) :
    GuardedCheck.Agrees (group.setWeightsGuarded mantissas) (group.setWeights mantissas) := by
  rw [setWeights_eq, checkMantissas, bind_assoc]
  unfold setWeightsGuarded
  refine (GuardedCheck.agrees_lift _).bind fun _ _ => ?_
  refine (GuardedCheck.agrees_lift _).bind fun _ _ => ?_
  refine GuardedCheck.agrees_guard_bind
    (mapM_eq_ok_map fun mantissa _ => Quantizer.quantizeGuarded_eq supported mantissa) ?_
  rw [List.zipWith_map_right]
  rfl

/-- States are checked and restored without failure. -/
theorem agrees_restore
    (supported : -8 ≤ group.quantizer.exponent ∧ group.quantizer.exponent ≤ 7)
    (states : List SynapseState) :
    GuardedCheck.Agrees (group.restoreGuarded states) (group.restore states) := by
  rw [restore_eq, checkStates, bind_assoc]
  unfold restoreGuarded
  refine (GuardedCheck.agrees_lift _).bind fun _ checked => ?_
  have sameLength := Refusal.checkLengths_eq_ok_iff.mp checked
  refine GuardedCheck.agrees_guard_bind (forStates_eq sameLength fun position pair =>
    Synapse.violationsGuarded_eq supported pair.1 position pair.2) ?_
  refine (GuardedCheck.agrees_lift _).bind fun _ _ => ?_
  have written : group.forStates states (fun _ pair => pure (pair.1.restore pair.2)) =
      .ok (List.zipWith Synapse.restore group.synapses.toList states) := by
    have each : ∀ (position : Nat) (pair : Synapse × SynapseState),
        (pure (pair.1.restore pair.2) : Except Failure Synapse) =
          .ok (pair.1.restore pair.2) := fun _ _ => rfl
    rw [forStates_eq sameLength each]
    exact congrArg Except.ok (List.ext_getElem (by simp) (by simp))
  exact GuardedCheck.agrees_guard_bind written rfl

end Neurochip.SynapseGroup
