import Neurochip.Proofs.Failure.SynapseGroup
import Neurochip.Proofs.Network.Configured
import Neurochip.Proofs.Weight.Stored

namespace Neurochip

/-!
# What holds of a group between any two operations

The operations of a synapse group share its marks, its touched positions and its
pending changes, and nothing forces a user to call them in the order of a step.
The main statement says that what a group relies on holds wherever operations
have led it, in whatever order: also when a rule is asked twice before its
changes are committed, when spikes are delivered again without a commit, and when
states are restored in the middle of a step.
-/

namespace SynapseGroup

variable {group after : SynapseGroup}

/-- What a change of one synapse keeps is kept when synapses are changed in turn. -/
theorem forall_mem_foldl_modify
    {holds : Synapse → Prop}
    {change : Synapse → Synapse}
    (kept : ∀ synapse, holds synapse → holds (change synapse))
    (positions : List Nat)
    {synapses : Array Synapse}
    (before : ∀ synapse ∈ synapses.toList, holds synapse) :
    ∀ synapse ∈ (positions.foldl (fun synapses position => synapses.modify position change)
      synapses).toList, holds synapse := by
  induction positions generalizing synapses with
  | nil => exact before
  | cons position rest inductionHypothesis =>
      exact inductionHypothesis (forall_mem_modify kept before position)

/-- What any stored weight keeps is kept by all changes, whichever positions they name and however
often. -/
theorem forall_mem_commitAll
    {quantizer : Quantizer}
    {holds : Synapse → Prop}
    (kept : ∀ synapse mantissa, holds synapse →
      holds (synapse.withWeight (quantizer.quantize mantissa)))
    (mode : RoundingMode)
    (changes : List PendingChange)
    {synapses : Array Synapse}
    (before : ∀ synapse ∈ synapses.toList, holds synapse)
    (different : Nat)
    (generator : Generator) :
    ∀ synapse ∈
      ((commitAll quantizer mode changes synapses different).run generator).1.1.toList,
      holds synapse := by
  induction changes generalizing synapses different generator with
  | nil => exact before
  | cons pending rest inductionHypothesis =>
      unfold commitAll
      split
      · exact inductionHypothesis before different generator
      · rw [Draw.run_bind, Synapse.run_changedWeight]
        exact inductionHypothesis
          (forall_mem_modify (fun synapse => kept synapse _) before pending.position) _ _

/-- Between any two operations a group is ready for each of them, and knows which synapses have a
mark. -/
structure Consistent (group : SynapseGroup) : Prop where
  ready : group.Ready
  touched : TouchedExactly group.synapses group.touched

theorem consistent_atRest
    {params : SynapseGroupParams}
    {rule : Option LearningRule}
    (acceptable : params.synapse.Acceptable)
    (parsed : LearningRule.parse? params.synapse.learningRule = .ok rule)
    (generator : Generator) :
    (atRest params rule generator).Consistent := by
  have inWords : ∀ present, rule = some present → present.expr.InWords := by
    rintro present rfl
    unfold LearningRule.parse? at parsed
    split at parsed
    · cases parsed
    · obtain ⟨accepted, read, same⟩ := bind_eq_ok_iff.mp parsed
      obtain rfl := Option.some.inj (pure_eq_ok_iff.mp same)
      exact LearningRule.inWords_of_parse read
  have reach : (atRest params rule generator).wiring.reach = params.synapse.delay + 1 := by
    simp [wiring, atRest]
  exact
    { ready :=
        { supported := ⟨acceptable, indexed_atRest params rule generator, reach, inWords⟩
          inRange := inRange_atRest params rule generator
          touched := by simp [atRest]
          pending := by simp [atRest] }
      touched := (settled_atRest params rule generator).touchedExactly }

theorem Consistent.transmit
    (consistent : group.Consistent)
    (spikes : List Nat)
    (targets : Nat) :
    (group.transmit spikes targets).2.Consistent :=
  ⟨consistent.ready.transmit spikes targets, consistent.touched.transmit spikes targets⟩

theorem Consistent.updateTraces
    (consistent : group.Consistent)
    (targetSpikes : List Nat)
    (mode : RoundingMode) :
    (group.updateTraces targetSpikes mode).Consistent :=
  ⟨(consistent.ready.updateTraces targetSpikes mode).2,
    consistent.touched.updateTraces targetSpikes mode⟩

theorem Consistent.learn (consistent : group.Consistent) : group.learn.Consistent := by
  refine ⟨consistent.ready.learn.2, ?_⟩
  rw [synapses_learn, touched_learn]
  exact consistent.touched

/-- A commit leaves a group consistent, whatever waits to be committed. -/
theorem Consistent.commit
    (consistent : group.Consistent)
    (mode : RoundingMode) :
    (group.commit mode).2.Consistent := by
  have settled := consistent.touched.settled_commit mode
  -- A position may be pending several times; each change starts from the weight before it.
  have changed : ∀ synapse ∈ ((group.changedSynapses mode).run group.generator).1.1.toList,
      synapse.InRange group.quantizer :=
    forall_mem_commitAll
      (fun _ _ inRange => Synapse.inRange_of_quantized rfl inRange.traces)
      mode group.pending consistent.ready.inRange 0 group.generator
  refine ⟨consistent.ready.of_wiring (wiring_commit group mode) ?_ ?_ ?_, settled.touchedExactly⟩
  · rw [commit_eq]
    exact forall_mem_foldl_modify (fun _ inRange => inRange_marked inRange false false) _ changed
  · simp [settled.touched]
  · simp [settled.pending]

/-- New weights and traces leave a group consistent if they are in range. -/
theorem Consistent.replace
    (consistent : group.Consistent)
    {synapses : Array Synapse}
    (sameWiring : ({ group with synapses := synapses } : SynapseGroup).wiring = group.wiring)
    (inRange : ∀ synapse ∈ synapses.toList, synapse.InRange group.quantizer)
    (sameMarks : synapses.toList.map Synapse.isTouched =
      group.synapses.toList.map Synapse.isTouched) :
    ({ group with synapses := synapses } : SynapseGroup).Consistent :=
  ⟨consistent.ready.of_wiring sameWiring inRange consistent.ready.touched
      consistent.ready.pending,
    consistent.touched.of_same_marks sameMarks⟩

theorem Consistent.setWeights
    (consistent : group.Consistent)
    {mantissas : List Int}
    (accepted : group.setWeights mantissas = .ok after) :
    after.Consistent := by
  have inRange := consistent.ready.inRange.setWeights accepted
  obtain ⟨sameLength, _, rfl⟩ := setWeights_eq_ok_iff.mp accepted
  refine consistent.replace (wiring_withMantissas sameLength) inRange (map_zipWith ?_ sameLength)
  exact fun _ _ => rfl

theorem Consistent.restore
    (consistent : group.Consistent)
    {states : List SynapseState}
    (accepted : group.restore states = .ok after) :
    after.Consistent := by
  have inRange := inRange_restore accepted
  obtain ⟨sameLength, _, rfl⟩ := restore_eq_ok_iff.mp accepted
  refine consistent.replace (wiring_withStates sameLength) inRange (map_zipWith ?_ sameLength)
  exact fun _ _ => rfl

/-- Every operation leaves a group consistent. -/
theorem Consistent.perform
    (consistent : group.Consistent)
    (operation : Operation) :
    (group.perform operation).Consistent := by
  cases operation with
  | transmit spikes targets => exact consistent.transmit spikes targets
  | updateTraces targetSpikes mode => exact consistent.updateTraces targetSpikes mode
  | learn => exact consistent.learn
  | commit mode => exact consistent.commit mode
  | setWeights mantissas =>
      rw [perform_setWeights]
      exact resultOr_of_accepted Consistent consistent fun _ accepted =>
        consistent.setWeights accepted
  | restore states =>
      rw [perform_restore]
      exact resultOr_of_accepted Consistent consistent fun _ accepted =>
        consistent.restore accepted

theorem Consistent.performAll
    (consistent : group.Consistent)
    (operations : List Operation) :
    (group.performAll operations).Consistent := by
  induction operations generalizing group with
  | nil => exact consistent
  | cons operation rest inductionHypothesis =>
      exact inductionHypothesis (consistent.perform operation)

/-- Whether a group refuses an operation. -/
def Refuses (group : SynapseGroup) : Operation → Prop
  | .setWeights mantissas => ∃ refusal, group.setWeights mantissas = .error refusal
  | .restore states => ∃ refusal, group.restore states = .error refusal
  | _ => False

theorem refuses_setWeights
    {mantissas : List Int}
    (otherLength : group.size ≠ mantissas.length) :
    group.Refuses (.setWeights mantissas) := by
  refine ⟨.lengths .synapseWeights group.size mantissas.length, ?_⟩
  rw [setWeights_eq, checkMantissas, Refusal.checkLengths, if_neg otherLength]
  rfl

/-- What a group that was created from some parameters never loses. -/
structure WellFormed
    (params : SynapseGroupParams)
    (created group : SynapseGroup) :
    Prop where
  wiring : group.wiring = created.wiring
  size : group.size = params.connections.length
  touched : TouchedExactly group.synapses group.touched
  pending : ∀ change ∈ group.pending, change.position < group.size
  weights : ∀ synapse ∈ group.synapses.toList, group.quantizer.Stores synapse.weight
  traces : ∀ synapse ∈ group.synapses.toList, synapse.traces.InRange

/-- Operations in any order keep a created group well-formed; one that is refused changes nothing,
and a commit leaves no mark and no pending change. -/
theorem wellFormed_performAll
    {params : SynapseGroupParams}
    {generator : Generator}
    {created : SynapseGroup}
    (accepted : create params generator = .ok created)
    (operations : List Operation) :
    WellFormed params created (created.performAll operations) ∧
      (∀ operation, (created.performAll operations).Refuses operation →
        (created.performAll operations).perform operation = created.performAll operations) ∧
      ∀ mode, ((created.performAll operations).perform (.commit mode)).Settled := by
  obtain ⟨valid, _, rule, parsed, rfl⟩ := create_eq_ok_iff.mp accepted
  have acceptable := SynapseParams.violations_eq_nil_iff.mp valid
  have consistent := (consistent_atRest acceptable parsed generator).performAll operations
  have sameWiring := wiring_performAll (atRest params rule generator) operations
  refine ⟨?_, ?_, fun mode => consistent.touched.settled_commit mode⟩
  · have size : (atRest params rule generator).size = params.connections.length := by
      simp [atRest, SynapseGroup.size]
    exact
      { wiring := sameWiring
        size := (size_of_wiring sameWiring).trans size
        touched := consistent.touched
        pending := fun change member => (consistent.ready.pending change member).1
        weights := fun synapse member => Quantizer.stores_of_quantize_eq
          consistent.ready.exponent (consistent.ready.inRange synapse member).stored
        traces := fun synapse member => (consistent.ready.inRange synapse member).traces }
  · intro operation refused
    cases operation with
    | setWeights mantissas =>
        obtain ⟨refusal, same⟩ := refused
        rw [perform_setWeights, same, resultOr]
    | restore states =>
        obtain ⟨refusal, same⟩ := refused
        rw [perform_restore, same, resultOr]
    | transmit | updateTraces | learn | commit => exact refused.elim

/-- The learning synapses stay well-formed when their rule is asked twice before a commit, and
refuse too few weights in the middle of a step. -/
theorem wellFormed_performAll_learning :
    ∃ created group, create .learning (.ofSeed 0) = .ok created ∧
      created.performAll
        [.transmit [0] 2, .transmit [] 2, .updateTraces [1] .stochastic, .learn, .learn] = group ∧
      WellFormed .learning created group ∧
      group.Refuses (.setWeights [7]) ∧ group.perform (.setWeights [7]) = group ∧
      (group.perform (.commit .stochastic)).Settled := by
  have accepted : create .learning (.ofSeed 0) =
      .ok (atRest .learning (some SynapseGroupParams.learnedRule) (.ofSeed 0)) :=
    create_eq_ok_iff.mpr ⟨by decide, by decide, _, SynapseGroupParams.parse_learning, rfl⟩
  obtain ⟨wellFormed, unchanged, settled⟩ := wellFormed_performAll accepted
    [.transmit [0] 2, .transmit [] 2, .updateTraces [1] .stochastic, .learn, .learn]
  have refused := refuses_setWeights
    (ne_of_eq_of_ne wellFormed.size (by decide : _ ≠ [(7 : Int)].length))
  exact ⟨_, _, accepted, rfl, wellFormed, refused, unchanged _ refused, settled .stochastic⟩

end SynapseGroup

end Neurochip
