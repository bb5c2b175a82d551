import Neurochip.Proofs.Failure.Synapse
import Neurochip.Proofs.Failure.Transmission
import Neurochip.Proofs.Rule.Words
import Neurochip.Proofs.SynapseGroup.Step

namespace Neurochip

/-!
# The phases of a synapse group do not fail

In every phase of a step the positions that a group works on are those of its
synapses, all registers are in range, and the changes that wait to be committed
are words.  Each phase relies on this and leaves it so for the next one.
-/

namespace SynapseGroup

/-- The part of a group that never changes keeps its computations within words. -/
structure Wiring.Supported (wiring : Wiring) : Prop where
  acceptable : wiring.params.Acceptable
  indexed : wiring.Indexed
  reach : wiring.reach = wiring.params.delay + 1
  rule : ∀ rule, wiring.rule = some rule → rule.expr.InWords

/-- A group in a step, before one of the phases. -/
structure Ready (group : SynapseGroup) : Prop where
  supported : group.wiring.Supported
  inRange : group.InRange
  touched : ∀ position ∈ group.touched.toList, position < group.size
  pending : ∀ change ∈ group.pending,
    change.position < group.size ∧ Bounds.int64.Contains change.change

/-- Applies a change to the synapse at a position. -/
def changeGuarded
    (change : Synapse → Except Failure Synapse)
    (synapses : Array Synapse)
    (position : Nat) :
    Except Failure (Array Synapse) := do
  let synapse ← Guard.elementAt synapses position
  let changed ← change synapse
  return synapses.setIfInBounds position changed

/-- Applies a change to every touched synapse. -/
def updateTouchedGuarded
    (group : SynapseGroup)
    (change : Synapse → Except Failure Synapse) :
    Except Failure SynapseGroup := do
  let synapses ← group.touched.toList.foldlM (changeGuarded change) group.synapses
  return { group with synapses := synapses }

/-- Lets all traces decay, computed in words. -/
def decayTracesGuarded (group : SynapseGroup) (mode : RoundingMode) :
    Except Failure SynapseGroup := do
  let (synapses, generator) ←
    (group.synapses.toList.mapM fun synapse =>
      synapse.decayTracesGuarded group.params.traces mode : Guarded _).run group.generator
  return { group with synapses := synapses.toArray, generator := generator }

/-- Lets all traces decay, then adds the impulses of this step's arrivals and target spikes. -/
def updateTracesGuarded
    (group : SynapseGroup)
    (spikes : List Nat)
    (mode : RoundingMode) :
    Except Failure SynapseGroup := do
  let decayed ← group.decayTracesGuarded mode
  let (synapses, touched) ←
    (spikes.flatMap decayed.incoming.lookup).foldlM (markGuarded Synapse.spike)
      (decayed.synapses, decayed.touched)
  let marked := { decayed with synapses := synapses, touched := touched }
  marked.updateTouchedGuarded (·.addImpulsesGuarded marked.params.traces)

/-- The change that a rule asks for at a position, which has to be that of a synapse. -/
def pendingChangeGuarded (group : SynapseGroup) (rule : LearningRule) (position : Nat) :
    Except Failure (Option PendingChange) := do
  let synapse ← Guard.elementAt group.synapses position
  return (synapse.change? rule).map (PendingChange.mk position)

/-- Asks the learning rule for the changes of the touched synapses. -/
def learnGuarded (group : SynapseGroup) : Except Failure SynapseGroup :=
  match group.rule with
  | none => return group
  | some rule => do
      let changes ← group.touched.toList.mapM (group.pendingChangeGuarded rule)
      return { group with pending := group.pending ++ changes.filterMap id }

/-- Commits changes in order, each to the synapse found at its position. -/
def commitAllGuarded
    (quantizer : Quantizer)
    (mode : RoundingMode)
    (precision : Int) :
    List PendingChange → Array Synapse → Nat → Guarded (Array Synapse × Nat)
  | [], synapses, different => return (synapses, different)
  | pending :: rest, synapses, different => do
      let synapse ← Guard.elementAt synapses pending.position
      let weight ← synapse.changedWeightGuarded quantizer mode precision pending.change
      commitAllGuarded quantizer mode precision rest
        (synapses.setIfInBounds pending.position { synapse with weight := weight })
        (if weight = synapse.weight then different else different + 1)

/-- Commits all pending changes and ends the step. -/
def commitGuarded (group : SynapseGroup) (mode : RoundingMode) :
    Except Failure (Nat × SynapseGroup) := do
  let precision ← group.quantizer.precisionGuarded
  let ((synapses, different), generator) ←
    (commitAllGuarded group.quantizer mode precision group.pending group.synapses 0).run
      group.generator
  let changed := { group with synapses := synapses, generator := generator }
  let settled ← changed.updateTouchedGuarded fun synapse => pure synapse.settle
  return (different, { settled with touched := #[], pending := [] })

variable {group : SynapseGroup}

theorem Ready.exponent (ready : group.Ready) :
    -8 ≤ group.quantizer.exponent ∧ group.quantizer.exponent ≤ 7 :=
  ready.supported.acceptable.weightExponent

/-- What changes of one synapse keep is kept by changes of several. -/
theorem forall_mem_modify
    {holds : Synapse → Prop}
    {change : Synapse → Synapse}
    (kept : ∀ synapse, holds synapse → holds (change synapse))
    {synapses : Array Synapse}
    (before : ∀ synapse ∈ synapses.toList, holds synapse)
    (position : Nat) :
    ∀ synapse ∈ (synapses.modify position change).toList, holds synapse := by
  intro synapse member
  obtain ⟨other, place⟩ := List.mem_iff_getElem?.mp member
  rw [Array.getElem?_toList, Array.getElem?_modify] at place
  split at place
  · obtain ⟨earlier, found, rfl⟩ := Option.map_eq_some_iff.mp place
    exact kept earlier (before earlier
      (mem_toList_of_getElem? found))
  · exact before synapse (mem_toList_of_getElem? place)

/-- The touched synapses are changed without failure if each of them is, and all of them keep what
this relies on. -/
theorem updateTouchedGuarded_eq
    (holds : Synapse → Prop)
    {guarded : Synapse → Except Failure Synapse}
    {change : Synapse → Synapse}
    (each : ∀ synapse, holds synapse → guarded synapse = .ok (change synapse))
    (kept : ∀ synapse, holds synapse → holds (change synapse))
    (before : ∀ synapse ∈ group.synapses.toList, holds synapse)
    (inside : ∀ position ∈ group.touched.toList, position < group.size) :
    group.updateTouchedGuarded guarded = .ok (group.updateTouched change) ∧
      ∀ synapse ∈ (group.updateTouched change).synapses.toList, holds synapse := by
  have step : ∀ synapses : Array Synapse,
      (synapses.size = group.size ∧ ∀ synapse ∈ synapses.toList, holds synapse) →
      ∀ position ∈ group.touched.toList,
        changeGuarded guarded synapses position = .ok (synapses.modify position change) ∧
        (synapses.modify position change).size = group.size ∧
        ∀ synapse ∈ (synapses.modify position change).toList, holds synapse := by
    rintro synapses ⟨sameSize, holding⟩ position member
    obtain ⟨synapse, found⟩ := Guard.exists_element (sameSize ▸ inside position member)
    have held := holding synapse (mem_toList_of_getElem? found)
    refine ⟨?_, by rw [Array.size_modify, sameSize], forall_mem_modify kept holding position⟩
    unfold changeGuarded
    rw [bind_of_eq_ok (Guard.elementAt_of_some found), bind_of_eq_ok (each synapse held),
      Guard.setIfInBounds_eq_modify found change]
    rfl
  obtain ⟨changes, _, after⟩ := foldlM_eq_ok_foldl _ step ⟨rfl, before⟩
  unfold updateTouchedGuarded updateTouched
  rw [bind_of_eq_ok changes, ← Array.foldl_toList]
  exact ⟨rfl, after⟩

/-- What an event keeps of one synapse is kept when it happens at several. -/
theorem forall_mem_markAll
    {holds : Synapse → Prop}
    {event : Synapse → Synapse}
    (kept : ∀ synapse, holds synapse → holds (event synapse))
    (positions : List Nat)
    {synapses : Array Synapse}
    (before : ∀ synapse ∈ synapses.toList, holds synapse)
    (touched : Array Nat) :
    ∀ synapse ∈ (markAll event positions synapses touched).1.toList, holds synapse := by
  induction positions generalizing synapses touched with
  | nil => exact before
  | cons position rest inductionHypothesis =>
      unfold markAll
      split
      · exact inductionHypothesis before touched
      · exact inductionHypothesis (forall_mem_modify kept before position) _

/-- Touched positions stay those of synapses when more synapses are marked. -/
theorem touched_markAll
    (event : Synapse → Synapse)
    (positions : List Nat)
    {synapses : Array Synapse}
    {touched : Array Nat}
    (before : ∀ position ∈ touched.toList, position < synapses.size) :
    ∀ position ∈ (markAll event positions synapses touched).2.toList,
      position < synapses.size := by
  induction positions generalizing synapses touched with
  | nil => exact before
  | cons first rest inductionHypothesis =>
      unfold markAll
      split
      · exact inductionHypothesis before
      · rename_i synapse found
        have sameSize : (synapses.modify first event).size = synapses.size := Array.size_modify
        rw [← sameSize]
        refine inductionHypothesis fun position member => ?_
        rw [sameSize]
        split at member
        · exact before position member
        · rw [Array.toList_push] at member
          rcases List.mem_append.mp member with old | new
          · exact before position old
          · rw [List.mem_singleton.mp new]
            exact (Array.getElem?_eq_some_iff.mp found).1

theorem inRange_marked
    {quantizer : Quantizer}
    {synapse : Synapse}
    (inRange : synapse.InRange quantizer)
    (arrived spiked : Bool) :
    Synapse.InRange quantizer { synapse with arrived := arrived, spiked := spiked } :=
  ⟨inRange.mantissa, inRange.stored, inRange.traces⟩

/-- A group with the same wiring is ready if its registers, touched positions and changes are. -/
theorem Ready.of_wiring
    (ready : group.Ready)
    {after : SynapseGroup}
    (sameWiring : after.wiring = group.wiring)
    (inRange : ∀ synapse ∈ after.synapses.toList, synapse.InRange group.quantizer)
    (touched : ∀ position ∈ after.touched.toList, position < group.size)
    (pending : ∀ change ∈ after.pending,
      change.position < group.size ∧ Bounds.int64.Contains change.change) :
    after.Ready := by
  rw [← quantizer_of_wiring sameWiring] at inRange
  rw [← size_of_wiring sameWiring] at touched pending
  exact ⟨by rw [sameWiring]; exact ready.supported, inRange, touched, pending⟩

theorem Ready.transmit (ready : group.Ready) (spikes : List Nat) (targets : Nat) :
    (group.transmit spikes targets).2.Ready :=
  ready.of_wiring (wiring_transmit group spikes targets)
    (forall_mem_markAll (fun _ inRange => inRange_marked inRange true _) _ ready.inRange _)
    (touched_markAll _ _ ready.touched) ready.pending

theorem Ready.areWeights (ready : group.Ready) :
    ∀ synapse ∈ group.synapses.toList, synapse.delivery.IsWeight := by
  intro synapse member
  have stored := (ready.inRange synapse member).stored
  rw [Synapse.delivery, Delivery.IsWeight, ← stored]
  exact Bounds.contains_clamp _ _

/-- The decay of all traces does not fail. -/
theorem Ready.decayTracesGuarded_eq (ready : group.Ready) (mode : RoundingMode) :
    group.decayTracesGuarded mode = .ok (group.decayTraces mode) := by
  have agrees : Guarded.Agrees
      (group.synapses.toList.mapM fun synapse =>
        synapse.decayTracesGuarded group.params.traces mode)
      (group.synapses.toList.mapM fun synapse => synapse.decayTraces group.params.traces mode) :=
    Guarded.agrees_mapM fun synapse member =>
      Synapse.agrees_decayTraces (ready.inRange synapse member).traces _ mode
  unfold decayTracesGuarded
  rw [bind_of_eq_ok (agrees group.generator)]
  simp only [decayTraces, Array.mapM_eq_mapM_toList, Draw.run_map]
  rfl

theorem wiring_decayTraces (group : SynapseGroup) (mode : RoundingMode) :
    (group.decayTraces mode).wiring = group.wiring := by
  simp only [wiring, endsOf_decayTraces]
  rfl

theorem wiring_mark (group : SynapseGroup) (positions : List Nat) :
    (group.mark Synapse.spike positions).wiring = group.wiring := by
  simp [mark, wiring, endsOf, map_markAll Synapse.keeps_ends_spike]

theorem Ready.decayTraces (ready : group.Ready) (mode : RoundingMode) :
    (group.decayTraces mode).Ready := by
  refine ready.of_wiring (wiring_decayTraces group mode) ?_ ready.touched ready.pending
  rw [decayTraces_eq]
  intro synapse member
  obtain ⟨before, memberBefore, traces, memberTraces, rfl⟩ := exists_of_mem_zipWith member
  have inRange := ready.inRange before memberBefore
  exact ⟨inRange.mantissa, inRange.stored,
    ready.inRange.decayedTraces mode _ traces memberTraces⟩

theorem Ready.mark (ready : group.Ready) (positions : List Nat) :
    (group.mark Synapse.spike positions).Ready :=
  ready.of_wiring (wiring_mark group positions)
    (forall_mem_markAll (fun _ inRange => inRange_marked inRange _ true) _ ready.inRange _)
    (touched_markAll _ _ ready.touched) ready.pending

/-- The positions of the synapses onto a neuron are those of synapses. -/
theorem Ready.lookup_incoming
    (ready : group.Ready)
    (spikes : List Nat) :
    ∀ position ∈ spikes.flatMap group.incoming.lookup, position < group.size := by
  intro position member
  obtain ⟨neuron, _, looked⟩ := List.mem_flatMap.mp member
  obtain ⟨synapse, found, _⟩ := (mem_lookup_incoming ready.supported.indexed).mp looked
  exact (Array.getElem?_eq_some_iff.mp found).1

theorem inRange_addImpulses
    {quantizer : Quantizer}
    {synapse : Synapse}
    (inRange : synapse.InRange quantizer)
    (params : Channels TraceParams) :
    (synapse.addImpulses params).InRange quantizer :=
  ⟨inRange.mantissa, inRange.stored, Synapse.inRange_addImpulses inRange.traces params⟩

/-- The trace update does not fail and leaves a group ready. -/
theorem Ready.updateTraces
    (ready : group.Ready)
    (spikes : List Nat)
    (mode : RoundingMode) :
    group.updateTracesGuarded spikes mode = .ok (group.updateTraces spikes mode) ∧
      (group.updateTraces spikes mode).Ready := by
  have decayed := ready.decayTraces mode
  have marked := decayed.mark (spikes.flatMap (group.decayTraces mode).incoming.lookup)
  obtain ⟨raises, inRange⟩ := updateTouchedGuarded_eq
    (fun synapse => synapse.InRange group.quantizer)
    (fun synapse inRange =>
      Synapse.addImpulsesGuarded_eq inRange.traces ready.supported.acceptable.impulses)
    (fun synapse inRange => inRange_addImpulses inRange group.params.traces)
    marked.inRange marked.touched
  have sameSize : ((group.decayTraces mode).mark Synapse.spike
      (spikes.flatMap (group.decayTraces mode).incoming.lookup)).size = group.size :=
    size_of_wiring ((wiring_mark _ _).trans (wiring_decayTraces group mode))
  have touched := marked.touched
  rw [sameSize] at touched
  constructor
  · unfold updateTracesGuarded
    rw [bind_of_eq_ok (ready.decayTracesGuarded_eq mode),
      bind_of_eq_ok (foldlM_markGuarded Synapse.spike (decayed.lookup_incoming spikes) _)]
    exact raises
  · exact ready.of_wiring (wiring_updateTraces group spikes mode) inRange touched ready.pending

theorem pendingChangeGuarded_eq
    (rule : LearningRule)
    {position : Nat}
    (inside : position < group.size) :
    group.pendingChangeGuarded rule position = .ok (group.pendingChange? rule position) := by
  obtain ⟨synapse, found⟩ := Guard.exists_element inside
  unfold pendingChangeGuarded pendingChange?
  rw [bind_of_eq_ok (Guard.elementAt_of_some found), found]
  cases change : synapse.change? rule <;> simp [change, pure, Except.pure]

/-- What a rule of a ready group asks for is a word, for an existing synapse. -/
theorem Ready.contains_pendingChange
    (ready : group.Ready)
    {rule : LearningRule}
    (present : group.rule = some rule)
    {position : Nat}
    {pending : PendingChange}
    (asked : group.pendingChange? rule position = some pending) :
    pending.position < group.size ∧ Bounds.int64.Contains pending.change := by
  simp only [pendingChange?, Option.bind_eq_bind, Option.bind_eq_some_iff, Option.pure_def,
    Option.some.injEq, Synapse.change?_eq_some_iff] at asked
  obtain ⟨synapse, found, _, ⟨_, rfl⟩, rfl⟩ := asked
  have inRange := ready.inRange synapse
    (mem_toList_of_getElem? found)
  exact ⟨(Array.getElem?_eq_some_iff.mp found).1,
    (ready.supported.rule rule present).contains_evaluate inRange.traces⟩

/-- Asking the learning rule does not fail and leaves a group ready. -/
theorem Ready.learn (ready : group.Ready) :
    group.learnGuarded = .ok group.learn ∧ group.learn.Ready := by
  cases present : group.rule with
  | none =>
      have idle : group.learn = group := by simp only [SynapseGroup.learn, present]
      rw [idle]
      exact ⟨by simp only [learnGuarded, present]; rfl, ready⟩
  | some rule =>
      have answered := mapM_eq_ok_map fun position member =>
        group.pendingChangeGuarded_eq rule (ready.touched position member)
      simp only [learnGuarded, SynapseGroup.learn, present]
      constructor
      · rw [bind_of_eq_ok answered, List.filterMap_map]
        rfl
      · refine ready.of_wiring (by simp only [wiring, present]) ready.inRange ready.touched ?_
        intro change member
        rcases List.mem_append.mp member with old | new
        · exact ready.pending change old
        · obtain ⟨position, _, asked⟩ := List.mem_filterMap.mp new
          exact ready.contains_pendingChange present asked

/-- Committing changes in order does not fail. -/
theorem agrees_commitAll
    {quantizer : Quantizer}
    (supported : -8 ≤ quantizer.exponent ∧ quantizer.exponent ≤ 7)
    (mode : RoundingMode)
    {changes : List PendingChange}
    {synapses : Array Synapse}
    (ready : ∀ change ∈ changes,
      change.position < synapses.size ∧ Bounds.int64.Contains change.change)
    (different : Nat) :
    Guarded.Agrees
      (commitAllGuarded quantizer mode quantizer.precision changes synapses different)
      (commitAll quantizer mode changes synapses different) := by
  induction changes generalizing synapses different with
  | nil => exact Guarded.agrees_pure _
  | cons pending rest inductionHypothesis =>
      obtain ⟨⟨inside, fits⟩, later⟩ := List.forall_mem_cons.mp ready
      obtain ⟨synapse, found⟩ := Guard.exists_element inside
      unfold commitAllGuarded commitAll
      simp only [found]
      refine Guarded.agrees_lift_bind (Guard.elementAt_of_some found) ?_
      refine (Synapse.agrees_changedWeight supported fits synapse mode).bind fun generator => ?_
      rw [Guard.setIfInBounds_eq_modify found fun synapse => { synapse with weight := _ }]
      refine inductionHypothesis (fun change member => ?_) _
      rw [Array.size_modify]
      exact later change member

/-- Committing the changes does not fail. -/
theorem Ready.commitGuarded_eq (ready : group.Ready) (mode : RoundingMode) :
    group.commitGuarded mode = .ok (group.commit mode) := by
  have commits := agrees_commitAll ready.exponent mode ready.pending 0 group.generator
  have sameSize : ((commitAll group.quantizer mode group.pending group.synapses 0).run
      group.generator).1.1.size = group.size := by
    have keeps : ∀ weight : Weight, Synapse.Keeps (fun _ => ()) ({ · with weight := weight }) :=
      fun _ _ => rfl
    simpa [size] using congrArg List.length
      (map_commitAll keeps group.quantizer mode group.pending group.synapses 0 group.generator)
  have touched := ready.touched
  rw [← sameSize] at touched
  unfold commitGuarded
  rw [bind_of_eq_ok group.quantizer.precisionGuarded_eq, bind_of_eq_ok commits]
  exact bind_of_eq_ok (updateTouchedGuarded_eq (fun _ => True) (fun _ _ => rfl)
    (fun _ _ => trivial) (fun _ _ => trivial) touched).1

end SynapseGroup

end Neurochip
