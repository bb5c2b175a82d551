import Neurochip.Proofs.Error.Methods
import Neurochip.Proofs.Random.Draws
import Neurochip.SynapseGroup

namespace Neurochip

/-!
# What a synapse group never changes

The wiring of a group is everything that is fixed when the group is built: what
it connects, how its weights and traces work, its rule, its indices and the
reach of its delay line.  The lemmas say for each operation that it leaves the
wiring alone.
-/

theorem mem_toList_of_getElem?
    {items : Array α}
    {position : Nat}
    {item : α}
    (found : items[position]? = some item) :
    item ∈ items.toList :=
  Array.mem_toList_iff.mpr (Array.mem_of_getElem? found)

namespace Synapse

/-- The neurons that a synapse connects. -/
def ends (synapse : Synapse) : Nat × Nat :=
  (synapse.pre, synapse.post)

/-- A change that leaves something about every synapse alone. -/
def Keeps (key : Synapse → β) (change : Synapse → Synapse) : Prop :=
  ∀ synapse, key (change synapse) = key synapse

theorem keeps_ends_arrive : Keeps ends arrive :=
  fun _ => rfl

theorem keeps_traces_arrive : Keeps traces arrive :=
  fun _ => rfl

theorem keeps_ends_spike : Keeps ends spike :=
  fun _ => rfl

theorem keeps_ends_settle : Keeps ends settle :=
  fun _ => rfl

theorem keeps_ends_addImpulses (params : Channels TraceParams) :
    Keeps ends (·.addImpulses params) :=
  fun _ => rfl

theorem keeps_isTouched_addImpulses (params : Channels TraceParams) :
    Keeps isTouched (·.addImpulses params) :=
  fun _ => rfl

theorem keeps_ends_weight (weight : Weight) :
    Keeps ends ({ · with weight := weight }) :=
  fun _ => rfl

theorem ends_restore (synapse : Synapse) (state : SynapseState) :
    (synapse.restore state).ends = synapse.ends :=
  rfl

/-- The synapse with other traces. -/
def withTraces (synapse : Synapse) (traces : Traces) : Synapse :=
  { synapse with traces := traces }

end Synapse

namespace SynapseGroup

/-- Everything about a group that is fixed when it is built. -/
structure Wiring where
  source : SourceRef
  target : Nat
  params : SynapseParams
  rule : Option LearningRule
  ends : List (Nat × Nat)
  outgoing : NeuronIndex
  incoming : NeuronIndex
  reach : Nat

/-- The connections of some synapses, in order. -/
def endsOf (synapses : Array Synapse) : List (Nat × Nat) :=
  synapses.toList.map Synapse.ends

/-- The wiring of a group. -/
def wiring (group : SynapseGroup) : Wiring :=
  { source := group.source
    target := group.target
    params := group.params
    rule := group.rule
    ends := endsOf group.synapses
    outgoing := group.outgoing
    incoming := group.incoming
    reach := group.inFlight.length }

/-- A group is as large as its wiring has connections. -/
theorem size_of_wiring
    {group after : SynapseGroup}
    (same : after.wiring = group.wiring) :
    after.size = group.size := by
  have ends : endsOf after.synapses = endsOf group.synapses := congrArg Wiring.ends same
  simpa [endsOf, size] using congrArg List.length ends

theorem quantizer_of_wiring
    {group after : SynapseGroup}
    (same : after.wiring = group.wiring) :
    after.quantizer = group.quantizer :=
  congrArg SynapseParams.quantizer (congrArg Wiring.params same)

/-- What a change of one synapse keeps is kept for all of them. -/
theorem map_modify
    {key : Synapse → β}
    {change : Synapse → Synapse}
    (keeps : Synapse.Keeps key change)
    (synapses : Array Synapse)
    (position : Nat) :
    (synapses.modify position change).toList.map key = synapses.toList.map key := by
  apply List.ext_getElem?
  intro other
  simp only [Array.toList_modify, List.getElem?_map, List.getElem?_modify]
  split
  · simp [Function.comp_def, keeps _]
  · simp

/-- What a change keeps is kept when several synapses are changed. -/
theorem map_foldl_modify
    {key : Synapse → β}
    {change : Synapse → Synapse}
    (keeps : Synapse.Keeps key change)
    (positions : List Nat)
    (synapses : Array Synapse) :
    (positions.foldl (fun synapses position => synapses.modify position change)
        synapses).toList.map key =
      synapses.toList.map key := by
  induction positions generalizing synapses with
  | nil => rfl
  | cons position rest inductionHypothesis =>
      rw [List.foldl_cons, inductionHypothesis, map_modify keeps]

/-- What an event keeps is kept when it happens at several synapses. -/
theorem map_markAll
    {key : Synapse → β}
    {event : Synapse → Synapse}
    (keeps : Synapse.Keeps key event)
    (positions : List Nat)
    (synapses : Array Synapse)
    (touched : Array Nat) :
    (markAll event positions synapses touched).1.toList.map key = synapses.toList.map key := by
  induction positions generalizing synapses touched with
  | nil => rfl
  | cons position rest inductionHypothesis =>
      unfold markAll
      split
      · exact inductionHypothesis synapses touched
      · rw [inductionHypothesis, map_modify keeps]

/-- What new weights keep is kept when changes are committed. -/
theorem map_commitAll
    {key : Synapse → β}
    (keeps : ∀ weight, Synapse.Keeps key ({ · with weight := weight }))
    (quantizer : Quantizer)
    (mode : RoundingMode)
    (changes : List PendingChange)
    (synapses : Array Synapse)
    (different : Nat)
    (generator : Generator) :
    ((commitAll quantizer mode changes synapses different).run generator).1.1.toList.map key =
      synapses.toList.map key := by
  induction changes generalizing synapses different generator with
  | nil => rfl
  | cons pending rest inductionHypothesis =>
      unfold commitAll
      split
      · exact inductionHypothesis synapses different generator
      · rw [Draw.run_bind, inductionHypothesis, map_modify (keeps _)]

/-- The decay of the traces of all synapses, drawn for in order. -/
def decayedTraces (group : SynapseGroup) (mode : RoundingMode) : Draw (List Traces) :=
  (group.synapses.toList.map Synapse.traces).mapM fun (traces : Traces) =>
    traces.decay group.params.traces mode

/-- Decay gives each synapse its decayed traces, and leaves the generator behind their draws. -/
theorem decayTraces_eq (group : SynapseGroup) (mode : RoundingMode) :
    group.decayTraces mode =
      { group with
        synapses :=
          (List.zipWith Synapse.withTraces group.synapses.toList
            ((group.decayedTraces mode).run group.generator).1).toArray
        generator := ((group.decayedTraces mode).run group.generator).2 } := by
  have inParts :
      (group.synapses.toList.mapM fun (synapse : Synapse) =>
        synapse.decayTraces group.params.traces mode : Draw _).run group.generator =
      (List.zipWith Synapse.withTraces group.synapses.toList
          ((group.decayedTraces mode).run group.generator).1,
        ((group.decayedTraces mode).run group.generator).2) :=
    Draw.run_mapM_part Synapse.traces (fun (traces : Traces) =>
      traces.decay group.params.traces mode) Synapse.withTraces group.synapses.toList
      group.generator
  simp only [decayTraces, Array.mapM_eq_mapM_toList, Draw.run_map, inParts]

theorem endsOf_decayTraces (group : SynapseGroup) (mode : RoundingMode) :
    endsOf (group.decayTraces mode).synapses = endsOf group.synapses := by
  simp only [endsOf, decayTraces, Array.mapM_eq_mapM_toList, Draw.run_map]
  exact Draw.map_run_mapM (fun _ _ => rfl) group.synapses.toList group.generator

@[simp] theorem wiring_transmit (group : SynapseGroup) (spikes : List Nat) (targets : Nat) :
    (group.transmit spikes targets).2.wiring = group.wiring := by
  simp [transmit, mark, wiring, endsOf, map_markAll Synapse.keeps_ends_arrive]

/-- Updating the traces leaves the wiring alone. -/
@[simp] theorem wiring_updateTraces
    (group : SynapseGroup)
    (spikes : List Nat)
    (mode : RoundingMode) :
    (group.updateTraces spikes mode).wiring = group.wiring := by
  have decayed := endsOf_decayTraces group mode
  simp only [endsOf] at decayed
  simp only [updateTraces, updateTouched, mark, wiring, endsOf, ← Array.foldl_toList,
    map_foldl_modify (Synapse.keeps_ends_addImpulses _),
    map_markAll Synapse.keeps_ends_spike, decayed]
  rfl

@[simp] theorem wiring_learn (group : SynapseGroup) :
    group.learn.wiring = group.wiring := by
  unfold learn
  split <;> rfl

/-- The synapses with all pending changes, and how many weights these make different. -/
def changedSynapses (group : SynapseGroup) (mode : RoundingMode) : Draw (Array Synapse × Nat) :=
  commitAll group.quantizer mode group.pending group.synapses 0

/-- Committing takes the changed synapses and removes all marks. -/
theorem commit_eq (group : SynapseGroup) (mode : RoundingMode) :
    group.commit mode =
      (((group.changedSynapses mode).run group.generator).1.2,
        { group with
          synapses :=
            group.touched.toList.foldl
              (fun synapses position => synapses.modify position Synapse.settle)
              ((group.changedSynapses mode).run group.generator).1.1
          generator := ((group.changedSynapses mode).run group.generator).2
          touched := #[]
          pending := [] }) := by
  simp only [commit, updateTouched, ← Array.foldl_toList]
  rfl

@[simp] theorem wiring_commit (group : SynapseGroup) (mode : RoundingMode) :
    (group.commit mode).2.wiring = group.wiring := by
  simp only [commit_eq, wiring, endsOf, map_foldl_modify Synapse.keeps_ends_settle,
    changedSynapses, map_commitAll Synapse.keeps_ends_weight]

/-- What the replacement of one part of each synapse keeps is kept for all of them. -/
theorem map_zipWith
    {key : Synapse → β}
    {replace : Synapse → α → Synapse}
    (keeps : ∀ synapse value, key (replace synapse value) = key synapse)
    {synapses : Array Synapse}
    {values : List α}
    (sameLength : synapses.size = values.length) :
    (List.zipWith replace synapses.toList values).toArray.toList.map key =
      synapses.toList.map key := by
  apply List.ext_getElem (by simp [sameLength])
  intro position inside _
  simp [keeps]

/-- Whatever two lists are combined to is combined from members of theirs. -/
theorem exists_of_mem_zipWith
    {combine : α → β → γ}
    {firsts : List α}
    {seconds : List β}
    {result : γ}
    (member : result ∈ List.zipWith combine firsts seconds) :
    ∃ first ∈ firsts, ∃ second ∈ seconds, combine first second = result := by
  obtain ⟨position, place⟩ := List.mem_iff_getElem?.mp member
  obtain ⟨first, second, atFirst, atSecond, same⟩ := List.getElem?_zipWith_eq_some.mp place
  exact ⟨first, List.mem_of_getElem? atFirst, second, List.mem_of_getElem? atSecond, same⟩

/-- The group with its weights replaced by those for the given mantissas. -/
def withMantissas (group : SynapseGroup) (mantissas : List Int) : SynapseGroup :=
  { group with
    synapses :=
      (List.zipWith
        (fun (synapse : Synapse) mantissa =>
          { synapse with weight := group.quantizer.quantize mantissa })
        group.synapses.toList mantissas).toArray }

/-- The group with its weights and traces replaced by saved ones. -/
def withStates (group : SynapseGroup) (states : List SynapseState) : SynapseGroup :=
  { group with
    synapses := (List.zipWith Synapse.restore group.synapses.toList states).toArray }

/-- Items that are written to the synapses behind some others, one for each of them, end up in all of
these. -/
theorem call_writeFrom
    (write : Synapse → α → Synapse)
    {group : SynapseGroup}
    {before after : List Synapse}
    (shape : group.synapses.toList = before ++ after)
    {items : List α}
    (sameLength : after.length = items.length) :
    (writeFrom write before.length items).call group =
      (.ok (),
        { group with synapses := (before ++ List.zipWith write after items).toArray }) := by
  induction items generalizing group before after with
  | nil =>
      obtain rfl := List.length_eq_zero_iff.mp sameLength
      have same : group.synapses = before.toArray := by
        rw [← List.append_nil before, ← shape]
      rw [List.zipWith_nil_right, List.append_nil, ← same]
      rfl
  | cons item rest inductionHypothesis =>
      cases after with
      | nil => cases sameLength
      | cons synapse after =>
          rw [writeFrom, Method.call_bind, Method.call_modify]
          have written : (group.synapses.modify before.length (write · item)).toList =
              (before ++ [write synapse item]) ++ after := by
            rw [Array.toList_modify, shape, List.modify_eq_take_drop]
            simp
          have later := @inductionHypothesis
            { group with synapses := group.synapses.modify before.length (write · item) }
            _ _ written (Nat.succ.inj sameLength)
          rw [List.length_append, List.length_singleton] at later
          dsimp only
          rw [later]
          simp

/-- Items that are written to all synapses, one for each of them, end up in all of them. -/
theorem call_writeAll
    (write : Synapse → α → Synapse)
    {group : SynapseGroup}
    {items : List α}
    (sameLength : group.size = items.length) :
    (writeFrom write 0 items).call group =
      (.ok (),
        { group with
          synapses := (List.zipWith write group.synapses.toList items).toArray }) :=
  @call_writeFrom _ write group [] _ rfl _ sameLength

/-- The checks of mantissas. -/
def checkMantissas (group : SynapseGroup) (mantissas : List Int) : Except Refusal Unit := do
  Refusal.checkLengths .synapseWeights group.size mantissas.length
  Refusal.checkValid (group.params.signMode.violations [.field "synapses"] mantissas)

/-- All mantissas are checked before any weight is written. -/
theorem carriesOut_setWeightsInPlace (mantissas : List Int) :
    (setWeightsInPlace mantissas).CarriesOut fun group =>
      group.checkMantissas mantissas >>= fun _ => pure (group.withMantissas mantissas) := by
  unfold setWeightsInPlace checkMantissas
  apply Method.carriesOut_of_checks
  intro group sameLength
  exact call_writeAll _ (Refusal.checkLengths_eq_ok_iff.mp sameLength)

theorem setWeights_eq (group : SynapseGroup) (mantissas : List Int) :
    group.setWeights mantissas =
      group.checkMantissas mantissas >>= fun _ => pure (group.withMantissas mantissas) :=
  (carriesOut_setWeightsInPlace mantissas).result_eq group

/-- The checks of saved states. -/
def checkStates (group : SynapseGroup) (states : List SynapseState) : Except Refusal Unit := do
  Refusal.checkLengths .synapseStates group.size states.length
  Refusal.checkValid
    (checkEach
      (fun position (synapse, state) =>
        Synapse.violations synapse group.quantizer position state)
      (group.synapses.toList.zip states))

/-- All saved states are checked before any weight or trace is written. -/
theorem carriesOut_restoreInPlace (states : List SynapseState) :
    (restoreInPlace states).CarriesOut fun group =>
      group.checkStates states >>= fun _ => pure (group.withStates states) := by
  unfold restoreInPlace checkStates
  apply Method.carriesOut_of_checks
  intro group sameLength
  exact call_writeAll _ (Refusal.checkLengths_eq_ok_iff.mp sameLength)

theorem restore_eq (group : SynapseGroup) (states : List SynapseState) :
    group.restore states = group.checkStates states >>= fun _ => pure (group.withStates states) :=
  (carriesOut_restoreInPlace states).result_eq group

/-- Copies of groups are restored one by one. -/
theorem inCopies_restoreInPlace
    {groups : List SynapseGroup}
    {parts : List (List SynapseState)}
    (sameLength : groups.length = parts.length) :
    Method.inCopies restoreInPlace groups parts =
      (groups.zip parts).mapM fun (group, states) => group.restore states :=
  Method.inCopies_eq_mapM (fun states => (carriesOut_restoreInPlace states).self) sameLength

/-- Weights are set exactly when there is one mantissa for each synapse, all of them allowed. -/
theorem setWeights_eq_ok_iff
    {group after : SynapseGroup}
    {mantissas : List Int} :
    group.setWeights mantissas = .ok after ↔
      group.size = mantissas.length ∧
      group.params.signMode.violations [.field "synapses"] mantissas = [] ∧
      group.withMantissas mantissas = after := by
  rw [setWeights_eq, check_bind_eq_ok_iff, checkMantissas, check_bind_eq_ok_iff,
    Refusal.checkLengths_eq_ok_iff, Refusal.checkValid_eq_ok_iff, pure_eq_ok_iff, and_assoc]

/-- States are restored exactly when there is one for each synapse and none violates anything. -/
theorem restore_eq_ok_iff
    {group after : SynapseGroup}
    {states : List SynapseState} :
    group.restore states = .ok after ↔
      group.size = states.length ∧
      checkEach
        (fun position (synapse, state) =>
          Synapse.violations synapse group.quantizer position state)
        (group.synapses.toList.zip states) = [] ∧
      group.withStates states = after := by
  rw [restore_eq, check_bind_eq_ok_iff, checkStates, check_bind_eq_ok_iff,
    Refusal.checkLengths_eq_ok_iff, Refusal.checkValid_eq_ok_iff, pure_eq_ok_iff, and_assoc]

/-- Replacing the weights leaves the wiring alone. -/
theorem wiring_withMantissas
    {group : SynapseGroup}
    {mantissas : List Int}
    (sameLength : group.size = mantissas.length) :
    (group.withMantissas mantissas).wiring = group.wiring := by
  have kept : endsOf (group.withMantissas mantissas).synapses = endsOf group.synapses :=
    map_zipWith
      (fun (synapse : Synapse) (mantissa : Int) =>
        Synapse.keeps_ends_weight (group.quantizer.quantize mantissa) synapse)
      sameLength
  rw [wiring, kept]
  rfl

theorem wiring_withStates
    {group : SynapseGroup}
    {states : List SynapseState}
    (sameLength : group.size = states.length) :
    (group.withStates states).wiring = group.wiring := by
  have kept : endsOf (group.withStates states).synapses = endsOf group.synapses :=
    map_zipWith Synapse.ends_restore sameLength
  rw [wiring, kept]
  rfl

end SynapseGroup

end Neurochip
