import Neurochip.Proofs.SynapseGroup.Committed

namespace Neurochip

/-!
# A whole step of a synapse group

Delivery, trace update, learning and commit together make one step.  The main
statement compares it, synapse by synapse, with what the synapse alone would do:
the weight changes exactly where the rule is triggered by what happened at the
synapse's own two ends.
-/

theorem Synapse.settle_of_untouched
    {synapse : Synapse}
    (untouched : synapse.isTouched = false) :
    synapse.settle = synapse := by
  simp only [isTouched, Bool.or_eq_false_iff] at untouched
  cases synapse
  simp_all [settle]

theorem Synapse.keeps_isTouched_weight (weight : Weight) :
    Keeps isTouched ({ · with weight := weight }) :=
  fun _ => rfl

/-- A rule asks for a change exactly where it is triggered. -/
theorem Synapse.change?_eq_some_iff
    {synapse : Synapse}
    {rule : LearningRule}
    {change : Int} :
    synapse.change? rule = some change ↔
      rule.isTriggered synapse.arrived synapse.spiked = true ∧
      rule.evaluate synapse.traces = change := by
  unfold change?
  split <;> simp_all

/-- A rule is triggered only if something has happened. -/
theorem LearningRule.happened_of_isTriggered
    {rule : LearningRule}
    {arrived spiked : Bool}
    (triggered : rule.isTriggered arrived spiked = true) :
    arrived = true ∨ spiked = true := by
  unfold isTriggered at triggered
  cases arrived <;> cases spiked <;> simp_all

namespace SynapseGroup

/-- One step of a group: its number of changed weights, and the group afterwards. -/
def stepped (group : SynapseGroup) (stimulus : Stimulus) (mode : RoundingMode) :
    Nat × SynapseGroup :=
  (group.traced stimulus mode).learn.commit mode

/-- The change that a rule asks for at a position with the given decayed traces. -/
def askedChange?
    (group : SynapseGroup)
    (stimulus : Stimulus)
    (rule : LearningRule)
    (decayed : List Traces)
    (position : Nat) :
    Option PendingChange := do
  let synapse ← group.synapses[position]?
  let traces ← decayed[position]?
  let change ← (group.tracedSynapse stimulus synapse traces).change? rule
  return { position := position, change := change }

/-- The changes that a step asks for, in the order in which it touches the synapses. -/
def askedChanges (group : SynapseGroup) (stimulus : Stimulus) (mode : RoundingMode) :
    List PendingChange :=
  match group.rule with
  | none => []
  | some rule =>
      (group.touchedPositions stimulus).filterMap
        (group.askedChange? stimulus rule ((group.decayedTraces mode).run group.generator).1)

variable {group : SynapseGroup} {stimulus : Stimulus}

/-- A change is asked for at the position of a synapse whose rule is triggered. -/
theorem askedChange?_eq_some_iff
    {rule : LearningRule}
    {decayed : List Traces}
    {position : Nat}
    {pending : PendingChange} :
    group.askedChange? stimulus rule decayed position = some pending ↔
      pending.position = position ∧
      ∃ synapse traces, group.synapses[position]? = some synapse ∧
        decayed[position]? = some traces ∧
        rule.isTriggered (group.hears stimulus synapse) (answers stimulus synapse) = true ∧
        pending.change =
          rule.evaluate (group.tracedSynapse stimulus synapse traces).traces := by
  obtain ⟨place, change⟩ := pending
  simp only [askedChange?, Synapse.change?_eq_some_iff, Option.bind_eq_bind,
    Option.bind_eq_some_iff, Option.some.injEq, Option.pure_def, PendingChange.mk.injEq]
  constructor
  · rintro ⟨synapse, found, traces, decays, _, ⟨triggered, rfl⟩, rfl, rfl⟩
    exact ⟨rfl, synapse, traces, found, decays, triggered, rfl⟩
  · rintro ⟨rfl, synapse, traces, found, decays, triggered, rfl⟩
    exact ⟨synapse, found, traces, decays, _, ⟨triggered, rfl⟩, rfl, rfl⟩

/-- No synapse is asked for two changes. -/
theorem nodup_askedChanges (group : SynapseGroup) (stimulus : Stimulus) (mode : RoundingMode) :
    ((group.askedChanges stimulus mode).map PendingChange.position).Nodup := by
  unfold askedChanges
  split
  · simp
  · rename_i rule _
    rw [List.map_filterMap]
    refine (nodup_eraseDups _).filterMap ?_
    intro first second position atFirst atSecond
    obtain ⟨pending, asked, rfl⟩ := Option.map_eq_some_iff.mp atFirst
    obtain ⟨other, askedOther, same⟩ := Option.map_eq_some_iff.mp atSecond
    rw [← (askedChange?_eq_some_iff.mp asked).1, ← (askedChange?_eq_some_iff.mp askedOther).1,
      same]

theorem length_decayedTraces (group : SynapseGroup) (mode : RoundingMode) :
    ((group.decayedTraces mode).run group.generator).1.length = group.size := by
  simp [decayedTraces, size]

/-- Every synapse has decayed traces. -/
theorem exists_decayedTraces
    (mode : RoundingMode)
    {position : Nat}
    {synapse : Synapse}
    (found : group.synapses[position]? = some synapse) :
    ∃ decayed, ((group.decayedTraces mode).run group.generator).1[position]? = some decayed := by
  have inside : position < ((group.decayedTraces mode).run group.generator).1.length := by
    rw [length_decayedTraces]
    exact (Array.getElem?_eq_some_iff.mp found).1
  exact ⟨_, List.getElem?_eq_getElem inside⟩

/-- The synapse at a position after its trace update. -/
theorem getElem?_traced
    (indexed : group.wiring.Indexed)
    (settled : group.Settled)
    (mode : RoundingMode)
    {position : Nat}
    {synapse : Synapse}
    (found : group.synapses[position]? = some synapse)
    {decayed : Traces}
    (decays :
      ((group.decayedTraces mode).run group.generator).1[position]? = some decayed) :
    (group.traced stimulus mode).synapses[position]? =
      some (group.tracedSynapse stimulus synapse decayed) := by
  rw [← Array.getElem?_toList, toList_traced indexed settled, List.getElem?_zipWith,
    Array.getElem?_toList, found, decays]

@[simp] theorem wiring_traced (group : SynapseGroup) (stimulus : Stimulus) (mode : RoundingMode) :
    (group.traced stimulus mode).wiring = group.wiring := by
  rw [traced, wiring_updateTraces, wiring_transmit]

@[simp] theorem wiring_stepped (group : SynapseGroup) (stimulus : Stimulus) (mode : RoundingMode) :
    (group.stepped stimulus mode).2.wiring = group.wiring := by
  rw [stepped, wiring_commit, wiring_learn, wiring_traced]

@[simp] theorem pending_traced (group : SynapseGroup) (stimulus : Stimulus) (mode : RoundingMode) :
    (group.traced stimulus mode).pending = group.pending := by
  rw [traced, updateTraces_eq, markedAnswers, decayTraces_eq, transmit_eq]
  rfl

/-- A step sends the spikes of the source on their way and takes out those that arrive. -/
theorem inFlight_stepped (group : SynapseGroup) (stimulus : Stimulus) (mode : RoundingMode) :
    (group.stepped stimulus mode).2.inFlight =
      (group.inFlight.schedule group.params.delay stimulus.spikes).drain.2 := by
  have learned : ∀ group : SynapseGroup, group.learn.inFlight = group.inFlight := by
    intro group
    unfold learn
    split <;> rfl
  rw [stepped, commit_eq, learned, traced, updateTraces_eq, markedAnswers, decayTraces_eq,
    transmit_eq]
  rfl

/-- The rule is asked about exactly the changes of the step. -/
theorem pending_learn_traced
    (indexed : group.wiring.Indexed)
    (settled : group.Settled)
    (stimulus : Stimulus)
    (mode : RoundingMode) :
    (group.traced stimulus mode).learn.pending = group.askedChanges stimulus mode := by
  have nothingYet : (group.traced stimulus mode).pending = [] := by
    rw [pending_traced, settled.pending]
  have sameRule : (group.traced stimulus mode).rule = group.rule :=
    congrArg Wiring.rule (wiring_traced group stimulus mode)
  cases present : group.rule with
  | none =>
      rw [present] at sameRule
      simp [learn, askedChanges, sameRule, present, settled.pending]
  | some rule =>
      rw [present] at sameRule
      simp only [learn, askedChanges, sameRule, present, nothingYet, List.nil_append,
        toList_touched_traced indexed settled]
      apply List.filterMap_congr
      intro position _
      have traced := congrArg (·[position]?) (toList_traced indexed settled stimulus mode)
      simp only [Array.getElem?_toList, List.getElem?_zipWith] at traced
      simp only [pendingChange?, askedChange?, traced]
      cases group.synapses[position]? <;>
        cases ((group.decayedTraces mode).run group.generator).1[position]? <;> rfl

theorem synapses_learn (group : SynapseGroup) :
    group.learn.synapses = group.synapses := by
  unfold learn
  split <;> rfl

theorem touched_learn (group : SynapseGroup) :
    group.learn.touched = group.touched := by
  unfold learn
  split <;> rfl

theorem generator_learn (group : SynapseGroup) :
    group.learn.generator = group.generator := by
  unfold learn
  split <;> rfl

/-- Apart from the decay of the traces, the trace update draws nothing. -/
theorem generator_traced (group : SynapseGroup) (stimulus : Stimulus) (mode : RoundingMode) :
    (group.traced stimulus mode).generator =
      ((group.decayedTraces mode).run group.generator).2 := by
  rw [traced, updateTraces_eq, markedAnswers, decayTraces_eq, run_decayedTraces_transmit]
  rfl

/-- The synapses of a step before their marks are removed, and the number of changed weights. -/
def changed (group : SynapseGroup) (stimulus : Stimulus) (mode : RoundingMode) :
    Array Synapse × Nat :=
  ((commitAll group.quantizer mode (group.askedChanges stimulus mode)
    (group.traced stimulus mode).synapses 0).run
    ((group.decayedTraces mode).run group.generator).2).1

/-- The learned changes, once committed, are those of the step. -/
theorem changedSynapses_learn_traced
    (indexed : group.wiring.Indexed)
    (settled : group.Settled)
    (stimulus : Stimulus)
    (mode : RoundingMode) :
    (((group.traced stimulus mode).learn.changedSynapses mode).run
        (group.traced stimulus mode).learn.generator).1 =
      group.changed stimulus mode := by
  have sameWiring : (group.traced stimulus mode).learn.wiring = group.wiring := by
    rw [wiring_learn, wiring_traced]
  have params : (group.traced stimulus mode).learn.params = group.params :=
    congrArg Wiring.params sameWiring
  rw [changedSynapses, pending_learn_traced indexed settled, synapses_learn, generator_learn,
    generator_traced, changed, quantizer, quantizer, params]

/-- The step answers the number of its changed weights. -/
theorem stepped_fst
    (indexed : group.wiring.Indexed)
    (settled : group.Settled)
    (stimulus : Stimulus)
    (mode : RoundingMode) :
    (group.stepped stimulus mode).1 = (group.changed stimulus mode).2 := by
  rw [stepped, commit_eq, ← changedSynapses_learn_traced indexed settled]

theorem Settled.touchedExactly_traced
    (settled : group.Settled)
    (stimulus : Stimulus)
    (mode : RoundingMode) :
    TouchedExactly (group.traced stimulus mode).synapses
      (group.traced stimulus mode).touched :=
  (settled.touchedExactly.transmit _ _).updateTraces _ _

/-- The step ends with removing the marks of all synapses. -/
theorem getElem?_stepped
    (indexed : group.wiring.Indexed)
    (settled : group.Settled)
    (stimulus : Stimulus)
    (mode : RoundingMode)
    (position : Nat) :
    (group.stepped stimulus mode).2.synapses[position]? =
      (group.changed stimulus mode).1[position]?.map Synapse.settle := by
  have exactly : TouchedExactly (group.changed stimulus mode).1
      (group.traced stimulus mode).touched :=
    (settled.touchedExactly_traced stimulus mode).of_same_marks
      (map_commitAll Synapse.keeps_isTouched_weight _ _ _ _ _ _)
  rw [stepped, commit_eq]
  simp only [changedSynapses_learn_traced indexed settled, touched_learn]
  exact exactly.getElem?_foldl_modify (fun _ => Synapse.settle_of_untouched) position

/-- Where the touched positions are exact, no mark is left by a commit. -/
theorem TouchedExactly.settled_commit
    (exactly : TouchedExactly group.synapses group.touched)
    (mode : RoundingMode) :
    (group.commit mode).2.Settled := by
  have exactlyChanged : TouchedExactly
      ((group.changedSynapses mode).run group.generator).1.1 group.touched :=
    exactly.of_same_marks (map_commitAll Synapse.keeps_isTouched_weight _ _ _ _ _ _)
  rw [commit_eq]
  refine ⟨rfl, rfl, fun synapse member => ?_⟩
  obtain ⟨position, place⟩ := Array.mem_iff_getElem?.mp member
  rw [exactlyChanged.getElem?_foldl_modify fun _ => Synapse.settle_of_untouched] at place
  obtain ⟨before, _, rfl⟩ := Option.map_eq_some_iff.mp place
  exact ⟨rfl, rfl⟩

/-- After a step no synapse has a mark and nothing waits to be committed. -/
theorem settled_stepped
    (settled : group.Settled)
    (stimulus : Stimulus)
    (mode : RoundingMode) :
    (group.stepped stimulus mode).2.Settled := by
  have exactly := settled.touchedExactly_traced stimulus mode
  rw [← synapses_learn, ← touched_learn] at exactly
  exact exactly.settled_commit mode

/-- All changes asked for are those of synapses of the group. -/
theorem inside_askedChanges
    (indexed : group.wiring.Indexed)
    (settled : group.Settled)
    (stimulus : Stimulus)
    (mode : RoundingMode) :
    Inside (group.askedChanges stimulus mode) (group.traced stimulus mode).synapses := by
  intro pending member
  unfold askedChanges at member
  split at member
  · cases member
  · obtain ⟨position, _, asked⟩ := List.mem_filterMap.mp member
    obtain ⟨rfl, synapse, decayed, found, decays, _⟩ := askedChange?_eq_some_iff.mp asked
    exact (Array.getElem?_eq_some_iff.mp (getElem?_traced indexed settled mode found decays)).1

/-- What a step makes of one synapse, said without touched positions and pending changes. -/
structure Outcome
    (group : SynapseGroup)
    (stimulus : Stimulus)
    (mode : RoundingMode)
    (position : Nat)
    (before : Synapse)
    (decayed : Traces)
    (after : Synapse) :
    Prop where
  ends : after.ends = before.ends
  traces :
    after.traces =
      decayed.raisedBy group.params.traces (group.hears stimulus before)
        (answers stimulus before)
  unmarked : after.arrived = false ∧ after.spiked = false
  learned : ∀ rule, group.rule = some rule →
    rule.isTriggered (group.hears stimulus before) (answers stimulus before) = true →
    after.weight =
      group.quantizer.quantize
        (before.weight.mantissa +
          roundedChange group.quantizer mode (group.askedChanges stimulus mode)
            { position := position, change := rule.evaluate after.traces }
            ((group.decayedTraces mode).run group.generator).2)
  kept :
    (∀ rule, group.rule = some rule →
      rule.isTriggered (group.hears stimulus before) (answers stimulus before) = false) →
    after.weight = before.weight

/-- A synapse at which a rule is triggered has its change among those asked for. -/
theorem mem_askedChanges
    (indexed : group.wiring.Indexed)
    (mode : RoundingMode)
    {position : Nat}
    {synapse : Synapse}
    (found : group.synapses[position]? = some synapse)
    {decayed : Traces}
    (decays :
      ((group.decayedTraces mode).run group.generator).1[position]? = some decayed)
    {rule : LearningRule}
    (present : group.rule = some rule)
    (triggered :
      rule.isTriggered (group.hears stimulus synapse) (answers stimulus synapse) = true) :
    { position := position
      change := rule.evaluate (group.tracedSynapse stimulus synapse decayed).traces } ∈
      group.askedChanges stimulus mode := by
  rw [askedChanges, present]
  refine List.mem_filterMap.mpr ⟨position, ?_, askedChange?_eq_some_iff.mpr
    ⟨rfl, synapse, decayed, found, decays, triggered, rfl⟩⟩
  rw [touchedPositions, List.mem_eraseDups, List.mem_append, mem_reachedPositions indexed,
    mem_answeredPositions indexed]
  rcases LearningRule.happened_of_isTriggered triggered with heard | answered
  · exact .inl ⟨synapse, found, heard⟩
  · exact .inr ⟨synapse, found, answered⟩

/-- A synapse whose change is asked for has a rule that is triggered there. -/
theorem isTriggered_of_mem_askedChanges
    {mode : RoundingMode}
    {position : Nat}
    {synapse : Synapse}
    (found : group.synapses[position]? = some synapse)
    (member : position ∈ (group.askedChanges stimulus mode).map PendingChange.position) :
    ∃ rule, group.rule = some rule ∧
      rule.isTriggered (group.hears stimulus synapse) (answers stimulus synapse) = true := by
  obtain ⟨pending, asked, rfl⟩ := List.mem_map.mp member
  unfold askedChanges at asked
  split at asked
  · cases asked
  · rename_i rule present
    obtain ⟨position, _, asked⟩ := List.mem_filterMap.mp asked
    obtain ⟨rfl, other, _, foundOther, _, triggered, _⟩ := askedChange?_eq_some_iff.mp asked
    rw [found] at foundOther
    obtain rfl := Option.some.inj foundOther
    exact ⟨rule, present, triggered⟩

/-- A step makes of each synapse what happens at its own ends, and nothing more. -/
theorem outcome_stepped
    (indexed : group.wiring.Indexed)
    (settled : group.Settled)
    (stimulus : Stimulus)
    (mode : RoundingMode)
    {position : Nat}
    {before : Synapse}
    (found : group.synapses[position]? = some before)
    {decayed : Traces}
    (decays :
      ((group.decayedTraces mode).run group.generator).1[position]? = some decayed) :
    ∃ after, (group.stepped stimulus mode).2.synapses[position]? = some after ∧
      group.Outcome stimulus mode position before decayed after := by
  have inside := inside_askedChanges indexed settled stimulus mode
  have once := nodup_askedChanges group stimulus mode
  have traced : (group.traced stimulus mode).synapses[position]? = _ :=
    getElem?_traced indexed settled mode found decays
  rw [getElem?_stepped indexed settled, changed]
  by_cases asked : position ∈ (group.askedChanges stimulus mode).map PendingChange.position
  · obtain ⟨rule, present, triggered⟩ := isTriggered_of_mem_askedChanges found asked
    have member := mem_askedChanges indexed mode found decays present triggered
    rw [getElem?_commitAll inside once member, traced]
    refine ⟨_, rfl, rfl, rfl, ⟨rfl, rfl⟩, ?_, ?_⟩
    -- A group has at most one rule, which is the one that has asked.
    · intro other presentOther _
      rw [present] at presentOther
      obtain rfl := Option.some.inj presentOther
      rfl
    · intro idle
      rw [idle rule present] at triggered
      cases triggered
  · rw [getElem?_commitAll_of_not_mem inside asked, traced]
    refine ⟨_, rfl, rfl, rfl, ⟨rfl, rfl⟩, ?_, fun _ => rfl⟩
    intro rule present triggered
    exact absurd (List.mem_map_of_mem
      (mem_askedChanges indexed mode found decays present triggered)) asked

/-- The number of synapses whose weight is another one in the second array. -/
def differences (before after : Array Synapse) : Nat :=
  (List.range before.size).countP (differsAt before after)

theorem differsAt_congr
    {before after otherBefore otherAfter : Array Synapse}
    {position : Nat}
    (sameBefore :
      otherBefore[position]?.map Synapse.weight = before[position]?.map Synapse.weight)
    (sameAfter : otherAfter[position]?.map Synapse.weight = after[position]?.map Synapse.weight) :
    differsAt otherBefore otherAfter position = differsAt before after position := by
  rw [differsAt, differsAt, sameBefore, sameAfter]

/-- Counting at some positions is counting at all, if there is nothing to count elsewhere. -/
theorem countP_eq_countP_range
    {positions : List Nat}
    (once : positions.Nodup)
    {size : Nat}
    (inside : ∀ position ∈ positions, position < size)
    {counts : Nat → Bool}
    (elsewhere : ∀ position < size, position ∉ positions → counts position = false) :
    positions.countP counts = (List.range size).countP counts := by
  rw [List.countP_eq_length_filter, List.countP_eq_length_filter]
  apply List.Perm.length_eq
  rw [List.perm_ext_iff_of_nodup (once.filter _) (List.nodup_range.filter _)]
  intro position
  simp only [List.mem_filter, List.mem_range]
  constructor
  · rintro ⟨member, counted⟩
    exact ⟨inside position member, counted⟩
  · rintro ⟨within, counted⟩
    refine ⟨?_, counted⟩
    by_contra absent
    rw [elsewhere position within absent] at counted
    cases counted

/-- The step answers the number of synapses whose weight it has changed. -/
theorem stepped_fst_eq_differences
    (indexed : group.wiring.Indexed)
    (settled : group.Settled)
    (stimulus : Stimulus)
    (mode : RoundingMode) :
    (group.stepped stimulus mode).1 =
      differences group.synapses (group.stepped stimulus mode).2.synapses := by
  have inside := inside_askedChanges indexed settled stimulus mode
  have once := nodup_askedChanges group stimulus mode
  have sameSize : (group.traced stimulus mode).synapses.size = group.synapses.size := by
    have sameEnds : endsOf _ = endsOf _ :=
      congrArg Wiring.ends (wiring_traced group stimulus mode)
    simpa [endsOf, wiring] using congrArg List.length sameEnds
  have tracedWeights : ∀ position : Nat,
      (group.traced stimulus mode).synapses[position]?.map Synapse.weight =
        group.synapses[position]?.map Synapse.weight := by
    intro position
    cases found : group.synapses[position]? with
    | none =>
        rw [Array.getElem?_eq_none_iff, ← sameSize, ← Array.getElem?_eq_none_iff] at found
        rw [found]
    | some synapse =>
        obtain ⟨decayed, decays⟩ := exists_decayedTraces mode found
        rw [getElem?_traced indexed settled mode found decays]
        rfl
  have steppedWeights : ∀ position : Nat,
      (group.stepped stimulus mode).2.synapses[position]?.map Synapse.weight =
        (group.changed stimulus mode).1[position]?.map Synapse.weight := by
    intro position
    rw [getElem?_stepped indexed settled, Option.map_map]
    rfl
  -- Weights change in the commit alone, so it is enough to compare before and after it.
  have same : differsAt group.synapses (group.stepped stimulus mode).2.synapses =
      differsAt (group.traced stimulus mode).synapses (group.changed stimulus mode).1 :=
    funext fun position =>
      (differsAt_congr (tracedWeights position) (steppedWeights position).symm).symm
  rw [stepped_fst indexed settled, differences, same, changed, different_commitAll inside once,
    Nat.zero_add, ← changed, ← sameSize]
  apply countP_eq_countP_range once
  · intro position member
    obtain ⟨pending, asked, rfl⟩ := List.mem_map.mp member
    exact inside pending asked
  · intro position _ absent
    rw [differsAt, changed, getElem?_commitAll_of_not_mem inside absent]
    simp

end SynapseGroup

end Neurochip
