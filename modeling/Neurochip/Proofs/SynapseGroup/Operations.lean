import Neurochip.Proofs.SynapseGroup.Step

namespace Neurochip

/-!
# Groups that operations have led to

A synapse group can be used by itself, its operations called in any order.  The
main statement says that its indices belong to its connections wherever such
operations have led.
-/

namespace SynapseGroup

/-- An operation on a synapse group. -/
inductive Operation where
  | transmit (spikes : List Nat) (targets : Nat)
  | updateTraces (targetSpikes : List Nat) (mode : RoundingMode)
  | learn
  | commit (mode : RoundingMode)
  | setWeights (mantissas : List Int)
  | restore (states : List SynapseState)

/-- The group as an operation leaves it, even if it is refused. -/
def perform (group : SynapseGroup) : Operation → SynapseGroup
  | .transmit spikes targets => (group.transmit spikes targets).2
  | .updateTraces targetSpikes mode => group.updateTraces targetSpikes mode
  | .learn => group.learn
  | .commit mode => (group.commit mode).2
  | .setWeights mantissas => ((setWeightsInPlace mantissas).call group).2
  | .restore states => ((restoreInPlace states).call group).2

/-- Weights that are refused change nothing. -/
theorem perform_setWeights (group : SynapseGroup) (mantissas : List Int) :
    group.perform (.setWeights mantissas) = resultOr group (group.setWeights mantissas) :=
  congrArg Prod.snd ((carriesOut_setWeightsInPlace mantissas).call_eq group)

/-- States that are refused change nothing. -/
theorem perform_restore (group : SynapseGroup) (states : List SynapseState) :
    group.perform (.restore states) = resultOr group (group.restore states) :=
  congrArg Prod.snd ((carriesOut_restoreInPlace states).call_eq group)

/-- The group after some operations. -/
def performAll (group : SynapseGroup) (operations : List Operation) : SynapseGroup :=
  operations.foldl perform group

/-- Whether operations lead from the creation of a group to it. -/
def Reachable
    (params : SynapseGroupParams)
    (generator : Generator)
    (group : SynapseGroup) :
    Prop :=
  ∃ created operations,
    create params generator = .ok created ∧ created.performAll operations = group

theorem wiring_setWeights
    {group after : SynapseGroup}
    {mantissas : List Int}
    (accepted : group.setWeights mantissas = .ok after) :
    after.wiring = group.wiring := by
  obtain ⟨sameLength, _, rfl⟩ := setWeights_eq_ok_iff.mp accepted
  exact wiring_withMantissas sameLength

theorem wiring_restore
    {group after : SynapseGroup}
    {states : List SynapseState}
    (accepted : group.restore states = .ok after) :
    after.wiring = group.wiring := by
  obtain ⟨sameLength, _, rfl⟩ := restore_eq_ok_iff.mp accepted
  exact wiring_withStates sameLength

/-- No operation changes the wiring. -/
theorem wiring_perform (group : SynapseGroup) (operation : Operation) :
    (group.perform operation).wiring = group.wiring := by
  cases operation with
  | transmit spikes targets => exact wiring_transmit group spikes targets
  | updateTraces targetSpikes mode => exact wiring_updateTraces group targetSpikes mode
  | learn => exact wiring_learn group
  | commit mode => exact wiring_commit group mode
  | setWeights mantissas =>
      rw [perform_setWeights]
      exact resultOr_of_accepted (fun after => after.wiring = group.wiring) rfl
        fun _ accepted => wiring_setWeights accepted
  | restore states =>
      rw [perform_restore]
      exact resultOr_of_accepted (fun after => after.wiring = group.wiring) rfl
        fun _ accepted => wiring_restore accepted

theorem wiring_performAll (group : SynapseGroup) (operations : List Operation) :
    (group.performAll operations).wiring = group.wiring := by
  induction operations generalizing group with
  | nil => rfl
  | cons operation rest inductionHypothesis =>
      rw [performAll, List.foldl_cons, ← performAll, inductionHypothesis, wiring_perform]

/-- A group is created at rest, from acceptable parameters and with a rule that can be parsed. -/
theorem create_eq_ok_iff
    {params : SynapseGroupParams}
    {generator : Generator}
    {group : SynapseGroup} :
    create params generator = .ok group ↔
      params.synapse.violations [] = [] ∧
      params.synapse.signMode.violations [.field "connections"] params.weights = [] ∧
      ∃ rule, LearningRule.parse? params.synapse.learningRule = .ok rule ∧
        atRest params rule generator = group := by
  have parsed : ∀ rule,
      (LearningRule.parse? params.synapse.learningRule).mapError Refusal.rule = .ok rule ↔
        LearningRule.parse? params.synapse.learningRule = .ok rule := by
    intro rule
    cases LearningRule.parse? params.synapse.learningRule <;> simp [Except.mapError]
  unfold create
  rw [check_bind_eq_ok_iff, check_bind_eq_ok_iff, Refusal.checkValid_eq_ok_iff,
    Refusal.checkValid_eq_ok_iff, bind_eq_ok_iff]
  simp only [parsed, pure_eq_ok_iff]

theorem indexed_atRest
    (params : SynapseGroupParams)
    (rule : Option LearningRule)
    (generator : Generator) :
    (atRest params rule generator).wiring.Indexed := by
  constructor <;>
    simp [atRest, wiring, endsOf, Synapse.ends, Synapse.ofConnection, Function.comp_def]

/-- A group at rest is settled. -/
theorem settled_atRest
    (params : SynapseGroupParams)
    (rule : Option LearningRule)
    (generator : Generator) :
    (atRest params rule generator).Settled := by
  refine ⟨rfl, rfl, ?_⟩
  intro synapse member
  simp only [atRest, List.mem_toArray, List.mem_map] at member
  obtain ⟨connection, _, rfl⟩ := member
  exact ⟨rfl, rfl⟩

/-- Setting weights changes no mark. -/
theorem Settled.setWeights
    {group after : SynapseGroup}
    (settled : group.Settled)
    {mantissas : List Int}
    (accepted : group.setWeights mantissas = .ok after) :
    after.Settled := by
  obtain ⟨_, _, rfl⟩ := setWeights_eq_ok_iff.mp accepted
  refine ⟨settled.touched, settled.pending, ?_⟩
  intro synapse member
  simp only [withMantissas, List.mem_toArray] at member
  obtain ⟨before, memberBefore, mantissa, _, rfl⟩ := exists_of_mem_zipWith member
  exact settled.unmarked before (Array.mem_toList_iff.mp memberBefore)

/-- Restoring states changes no mark. -/
theorem Settled.restore
    {group after : SynapseGroup}
    (settled : group.Settled)
    {states : List SynapseState}
    (accepted : group.restore states = .ok after) :
    after.Settled := by
  obtain ⟨_, _, rfl⟩ := restore_eq_ok_iff.mp accepted
  refine ⟨settled.touched, settled.pending, ?_⟩
  intro synapse member
  simp only [withStates, List.mem_toArray] at member
  obtain ⟨before, memberBefore, state, _, rfl⟩ := exists_of_mem_zipWith member
  exact settled.unmarked before (Array.mem_toList_iff.mp memberBefore)

/-- Wherever operations have led, the indices belong to the connections. -/
theorem Reachable.indexed
    {params : SynapseGroupParams}
    {generator : Generator}
    {group : SynapseGroup}
    (reachable : Reachable params generator group) :
    group.wiring.Indexed := by
  obtain ⟨created, operations, accepted, rfl⟩ := reachable
  obtain ⟨_, _, rule, _, rfl⟩ := create_eq_ok_iff.mp accepted
  rw [wiring_performAll]
  exact indexed_atRest params rule generator

end SynapseGroup

end Neurochip
