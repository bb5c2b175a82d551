import Neurochip.Proofs.Network.Delivery
import Neurochip.Proofs.Network.Hearing
import Neurochip.Proofs.SpikeSource.Playback

namespace Neurochip

/-!
# No step depends on later spikes

Two descriptions may differ in what one spike source plays from some time on.
Their networks cannot be told apart before this time, and before the shortest
delay of the synapses from this source has passed as well, they differ in what
the source is reported to emit and in what is on its way, but in no neuron, no
weight and no trace.  Random draws make no difference, because each group draws
for the same states at the same times.
-/

namespace StepReport

/-- Reports that differ at most in the spikes of one object. -/
structure SameBut (object : ObjectId) (first second : StepReport) : Prop where
  time : second.time = first.time
  spikes : ∀ other, other ≠ object → second.indicesFor other = first.indicesFor other
  transmissions : second.transmissions = first.transmissions
  weightUpdates : second.weightUpdates = first.weightUpdates

end StepReport

namespace Network

/-- Networks whose sources emit the same, except for one source from some time on. -/
structure EmitAlike (position horizon : Nat) (first second : Network) : Prop where
  before : ∀ time < horizon,
    (second.emit time).spikeSources.map (·.lastSpikes) =
      (first.emit time).spikeSources.map (·.lastSpikes)
  others : ∀ source time, source ≠ position →
    (second.emit time).spikeSources[source]?.map (·.lastSpikes) =
      (first.emit time).spikeSources[source]?.map (·.lastSpikes)

variable {position horizon : Nat} {first second : Network}

/-- What a source emits does not depend on the steps before. -/
theorem spikeSources_emit_next (network : Network) (time later : Nat) :
    ((network.next time).emit later).spikeSources = (network.emit later).spikeSources :=
  spikeSources_emit (by rw [next, halfway, emit, List.map_map]; rfl) later

theorem EmitAlike.next
    (emitAlike : EmitAlike position horizon first second)
    (time : Nat) :
    EmitAlike position horizon (first.next time) (second.next time) := by
  constructor
  · intro later early
    rw [spikeSources_emit_next, spikeSources_emit_next, emitAlike.before later early]
  · intro source later other
    rw [spikeSources_emit_next, spikeSources_emit_next, emitAlike.others source later other]

/-- Two networks after equally many steps, with the reports of these steps, where nothing of what one
source has emitted differently has reached a synapse yet. -/
structure InStep
    (position horizon : Nat)
    (history other : List StepReport)
    (first second : Network) :
    Prop where
  carries : Carries history first
  carriesOther : Carries other second
  length : other.length = history.length
  emitAlike : EmitAlike position horizon first second
  sent : ∀ source, ∀ step < history.length, (source = .spikeSource position → step < horizon) →
    sentAt other source step = sentAt history source step
  neurons : second.neuronGroups = first.neuronGroups
  synapses : List.Forall₂ (fun group changed => ∃ line, changed = group.withLine line)
    first.synapseGroups second.synapseGroups
  rounding : second.rounding = first.rounding
  reports : List.Forall₂ (StepReport.SameBut (.spikeSource position)) history other
  sameReports : other.take horizon = history.take horizon

variable {history other : List StepReport}

/-- In the next step the same is sent, but for the source after its time. -/
theorem InStep.lastSpikes_emit
    (inStep : InStep position horizon history other first second)
    {time : Nat}
    {source : SourceRef}
    (early : source = .spikeSource position → time < horizon) :
    (second.emit time).lastSpikes source = (first.emit time).lastSpikes source := by
  cases source with
  | neuronGroup group =>
      show second.lastSpikes (.neuronGroup group) = first.lastSpikes (.neuronGroup group)
      rw [lastSpikes, lastSpikes, inStep.neurons]
  | spikeSource source =>
      have emitted : (second.emit time).spikeSources[source]?.map (·.lastSpikes) =
          (first.emit time).spikeSources[source]?.map (·.lastSpikes) := by
        by_cases same : source = position
        · have all := inStep.emitAlike.before time (early (same ▸ rfl))
          rw [← List.getElem?_map, ← List.getElem?_map, all]
        · exact inStep.emitAlike.others source time same
      rw [lastSpikes, lastSpikes]
      cases foundFirst : (first.emit time).spikeSources[source]? <;>
        cases foundSecond : (second.emit time).spikeSources[source]? <;> simp_all

/-- With the next step the histories have sent the same, but for the source after its time. -/
theorem InStep.sent_next
    (inStep : InStep position horizon history other first second)
    {source : SourceRef}
    {step : Nat}
    (within : step < history.length + 1)
    (early : source = .spikeSource position → step < horizon) :
    sentAt (other ++ [second.reportOf history.length]) source step =
      sentAt (history ++ [first.reportOf history.length]) source step := by
  rcases Nat.lt_succ_iff_lt_or_eq.mp within with earlier | rfl
  · rw [sentAt_append earlier, sentAt_append (by rwa [inStep.length])]
    exact inStep.sent source step earlier early
  · have sentOther := inStep.carriesOther.sentAt_last history.length source
    rw [inStep.length] at sentOther
    rw [sentOther, inStep.carries.sentAt_last, inStep.lastSpikes_emit early]

/-- No spike of a source from a time on has had the time to arrive. -/
def Layout.BeforeArrivals (layout : Layout) (position horizon step : Nat) : Prop :=
  ∀ wiring ∈ layout.wirings, wiring.source = .spikeSource position →
    step < horizon + wiring.params.delay

/-- As long as later spikes have not arrived, both networks hear the same. -/
theorem InStep.stepAlike
    (inStep : InStep position horizon history other first second)
    (sound : first.layout.Sound)
    (soundOther : second.layout.Sound)
    (early : first.layout.BeforeArrivals position horizon history.length) :
    StepAlike first second history.length := by
  refine ⟨by rw [inStep.neurons], inStep.rounding, ?_⟩
  have members := (List.forall₂_and_left _ _).mpr ⟨fun _ member => member,
    ((List.forall₂_and_left _ _).mpr ⟨fun _ member => member, inStep.synapses.flip⟩).flip⟩
  refine members.imp fun group changed ⟨member, memberOther, line, same⟩ => ⟨line, same, ?_⟩
  subst same
  have arriving := inStep.carries.arriving_eq history.length member (sound.reach_of_mem member)
  have arrivingOther := inStep.carriesOther.arriving_eq history.length memberOther
    (soundOther.reach_of_mem memberOther)
  rw [inStep.length] at arrivingOther
  refine SynapseGroup.reachedPositions_withLine (arrivingOther.trans (Eq.trans ?_ arriving.symm)) _
  -- What arrives has been sent one delay ago, which is before the time in question.
  show arrivalsAt _ group _ = arrivalsAt _ group _
  unfold arrivalsAt
  split
  · refine inStep.sent_next (by omega) fun reads => ?_
    have := early group.wiring (List.mem_map_of_mem member) reads
    simp only [SynapseGroup.wiring] at this
    omega
  · rfl

/-- The reports of the step differ at most in what the one source emits. -/
theorem InStep.sameBut_reportOf
    (inStep : InStep position horizon history other first second)
    {time : Nat}
    (alike : StepAlike first second time) :
    (first.reportOf time).SameBut (.spikeSource position) (second.reportOf time) := by
  refine ⟨rfl, ?_, alike.transmissions_reportOf_eq, alike.weightUpdates_reportOf_eq⟩
  intro object different
  cases object with
  | neuronGroup group =>
      rw [indicesFor_reportOf_neuronGroup, indicesFor_reportOf_neuronGroup, alike.neurons_next]
  | spikeSource source =>
      have elsewhere : source ≠ position := fun same => different (same ▸ rfl)
      rw [indicesFor_reportOf_spikeSource, indicesFor_reportOf_spikeSource,
        inStep.emitAlike.others source time elsewhere]
  | synapses group =>
      rw [indicesFor_reportOf_synapses, indicesFor_reportOf_synapses]

/-- The networks stay in step as long as later spikes have not arrived. -/
theorem InStep.next
    (inStep : InStep position horizon history other first second)
    (sound : first.layout.Sound)
    (soundOther : second.layout.Sound)
    (early : first.layout.BeforeArrivals position horizon history.length) :
    InStep position horizon
      (history ++ [first.reportOf history.length]) (other ++ [second.reportOf history.length])
      (first.next history.length) (second.next history.length) := by
  have alike := inStep.stepAlike sound soundOther early
  refine
    { carries := inStep.carries.next sound _
      carriesOther := inStep.carriesOther.next soundOther _
      length := by simp [inStep.length]
      emitAlike := inStep.emitAlike.next _
      sent := ?_
      neurons := alike.neurons_next
      synapses := alike.synapses_next
      rounding := inStep.rounding
      reports := List.rel_append inStep.reports (.cons (inStep.sameBut_reportOf alike) .nil)
      sameReports := ?_ }
  · intro source step within early
    rw [List.length_append, List.length_singleton] at within
    exact inStep.sent_next within early
  · rw [List.take_append, List.take_append, inStep.sameReports, inStep.length]
    by_cases before : history.length < horizon
    · rw [alike.reportOf_eq (inStep.emitAlike.before _ before)]
    · rw [show horizon - history.length = 0 by omega, List.take_zero, List.take_zero]

end Network

namespace NetworkParams

/-- The description with other events of one of its spike sources. -/
def withEvents (params : NetworkParams) (position : Nat) (indices times : List Nat) :
    NetworkParams :=
  { params with
    spikeSources :=
      params.spikeSources.modify position ({ · with indices := indices, times := times }) }

/-- The smallest delay of the synapse groups that take their spikes from an object, if there are
any. -/
def shortestDelay? (params : NetworkParams) (source : SourceRef) : Option Nat :=
  ((params.synapseGroups.filter fun group => decide (group.source = source)).map
    (·.synapse.delay)).min?

/-- No synapse group from an object has a smaller delay. -/
theorem exists_shortestDelay
    {params : NetworkParams}
    {group : SynapseGroupParams}
    (member : group ∈ params.synapseGroups) :
    ∃ delay ∈ params.shortestDelay? group.source, delay ≤ group.synapse.delay := by
  have listed : group.synapse.delay ∈
      (params.synapseGroups.filter fun other => decide (other.source = group.source)).map
        (·.synapse.delay) :=
    List.mem_map_of_mem (List.mem_filter.mpr ⟨member, by simp⟩)
  obtain ⟨delay, shortest⟩ := Option.isSome_iff_exists.mp (List.isSome_min?_of_mem listed)
  exact ⟨delay, shortest, (List.min?_eq_some_iff.mp shortest).2 _ listed⟩

end NetworkParams

namespace Network

variable {processors : Nat} {params : NetworkParams} {source : SpikeSourceParams}
  {indices times : List Nat}

theorem getElem?_spikeSources_withEvents
    (params : NetworkParams)
    (position : Nat)
    (indices times : List Nat)
    (index : Nat) :
    (params.withEvents position indices times).spikeSources[index]? =
      params.spikeSources[index]?.map fun source =>
        if position = index then { source with indices := indices, times := times } else source :=
  List.getElem?_modify _ _ _ _

/-- What the sources of a description emit at a time. -/
theorem getElem?_lastSpikes_initial (params : NetworkParams) (time index : Nat) :
    ((initial params).emit time).spikeSources[index]?.map (·.lastSpikes) =
      params.spikeSources[index]?.map fun source => (SpikeSource.ofParams source).dueAt time := by
  simp only [emit, initial, List.getElem?_map, Option.map_map]
  rfl

/-- The networks of descriptions that differ in the later events of a source emit the same, except
for this source from that time on. -/
theorem emitAlike_initial
    (found : params.spikeSources[position]? = some source)
    (same : ∀ time < horizon,
      (SpikeSource.ofParams { source with indices := indices, times := times }).dueAt time =
        (SpikeSource.ofParams source).dueAt time) :
    EmitAlike position horizon (initial params)
      (initial (params.withEvents position indices times)) := by
  constructor
  · intro time early
    apply List.ext_getElem?
    intro index
    rw [List.getElem?_map, List.getElem?_map, getElem?_lastSpikes_initial,
      getElem?_lastSpikes_initial, getElem?_spikeSources_withEvents, Option.map_map]
    cases place : params.spikeSources[index]? with
    | none => rfl
    | some described =>
        by_cases here : position = index
        · subst here
          obtain rfl := Option.some.inj (place.symm.trans found)
          simpa using same time early
        · simp [here]
  · intro index time elsewhere
    rw [getElem?_lastSpikes_initial, getElem?_lastSpikes_initial,
      getElem?_spikeSources_withEvents, Option.map_map]
    simp only [Function.comp_def, if_neg (Ne.symm elsewhere)]

/-- In the first step two networks of the same neurons and synapses are in step. -/
theorem inStep_of_configure
    (accepted : configure processors params = .ok first)
    (acceptedOther : configure processors (params.withEvents position indices times) = .ok second)
    (emitAlike : EmitAlike position horizon first second) :
    InStep position horizon [] [] first second := by
  refine
    { carries := carries_of_configure accepted
      carriesOther := carries_of_configure acceptedOther
      length := rfl
      emitAlike := emitAlike
      sent := fun _ _ within => absurd within (Nat.not_lt_zero _)
      neurons := ?_
      synapses := ?_
      rounding := ?_
      reports := .nil
      sameReports := rfl }
  all_goals rw [eq_initial_of_configure accepted, eq_initial_of_configure acceptedOther]
  · rfl
  · exact List.forall₂_same.mpr fun group _ => ⟨group.inFlight, rfl⟩
  · rfl

/-- Two networks stay in step until later spikes arrive. -/
theorem InStep.steps
    (inStep : InStep position horizon [] [] first second)
    (accepted : configure processors params = .ok first)
    (acceptedOther : configure processors (params.withEvents position indices times) = .ok second)
    (steps : Nat)
    (early : ∀ wiring ∈ first.layout.wirings, wiring.source = .spikeSource position →
      steps ≤ horizon + wiring.params.delay) :
    InStep position horizon
      (first.steps (List.range steps)).1 (second.steps (List.range steps)).1
      (first.steps (List.range steps)).2 (second.steps (List.range steps)).2 := by
  induction steps with
  | zero => exact inStep
  | succ steps inductionHypothesis =>
      have reached := inductionHypothesis fun wiring member reads =>
        Nat.le_of_succ_le (early wiring member reads)
      have sameLayout : (first.steps (List.range steps)).2.layout = first.layout :=
        (layout_performAll accepted _).1
      have sameLayoutOther : (second.steps (List.range steps)).2.layout = second.layout :=
        (layout_performAll acceptedOther _).1
      have count : (first.steps (List.range steps)).1.length = steps := by
        rw [length_steps, List.length_range]
      have next := reached.next (sameLayout ▸ sound_of_configure accepted)
        (sameLayoutOther ▸ sound_of_configure acceptedOther)
        (by rw [sameLayout, count]; exact early)
      rw [count] at next
      rw [List.range_succ, steps_concat, steps_concat]
      exact next

/-- The groups of two networks in step are in the same states. -/
theorem InStep.snapshot_eq (inStep : InStep position horizon history other first second) :
    second.snapshot = first.snapshot := by
  have synapses : second.synapseGroups.map (·.states) = first.synapseGroups.map (·.states) := by
    refine map_eq_of_forall₂ inStep.synapses fun group changed ⟨line, same⟩ => ?_
    rw [same]
    rfl
  rw [snapshot, snapshot, inStep.neurons, synapses]

/-- Let two descriptions differ only in the events of a source that plays them once and sorts them
itself, and let their events before some time be the same.  In every rounding mode the networks,
stepped at consecutive times from zero on, report the same before this time; and before the
shortest delay of the synapses from the source has passed as well, their reports differ at most in
the spikes of the source, and all neurons and synapses are in the same states. -/
theorem no_step_depends_on_later_spikes
    (accepted : configure processors params = .ok first)
    (acceptedOther : configure processors (params.withEvents position indices times) = .ok second)
    (found : params.spikeSources[position]? = some source)
    (once : source.period = 0)
    (unsorted : source.sorted = false)
    (coincide : ∀ event : SpikeEvent, event.time < horizon →
      (event ∈ source.events ↔
        event ∈ { source with indices := indices, times := times }.events)) :
    (∀ steps ≤ horizon,
      (second.steps (List.range steps)).1 = (first.steps (List.range steps)).1) ∧
    ∀ steps,
      (∀ delay ∈ params.shortestDelay? (.spikeSource position), steps ≤ horizon + delay) →
      List.Forall₂ (StepReport.SameBut (.spikeSource position))
        (first.steps (List.range steps)).1 (second.steps (List.range steps)).1 ∧
      (second.steps (List.range steps)).2.snapshot =
        (first.steps (List.range steps)).2.snapshot := by
  obtain ⟨_, acceptable, built⟩ := configure_eq_ok_iff.mp accepted
  obtain ⟨_, acceptableOther, _⟩ := configure_eq_ok_iff.mp acceptedOther
  have foundOther : (params.withEvents position indices times).spikeSources[position]? =
      some { source with indices := indices, times := times } := by
    rw [getElem?_spikeSources_withEvents, found, Option.map_some, if_pos rfl]
  have sameDue : ∀ time < horizon,
      (SpikeSource.ofParams { source with indices := indices, times := times }).dueAt time =
        (SpikeSource.ofParams source).dueAt time := fun time early =>
    SpikeSource.dueAt_ofParams_congr
      (acceptableOther.spikeSources _ (List.mem_of_getElem? foundOther))
      (acceptable.spikeSources source (List.mem_of_getElem? found))
      ⟨unsorted, unsorted⟩ ⟨once, once⟩
      fun event now => (coincide event (now ▸ early)).symm
  have emitAlike : EmitAlike position horizon first second := by
    rw [eq_initial_of_configure accepted, eq_initial_of_configure acceptedOther]
    exact emitAlike_initial found sameDue
  have inStep := inStep_of_configure accepted acceptedOther emitAlike
  refine ⟨fun steps before => ?_, fun steps within => ?_⟩
  · have reached := (inStep.steps accepted acceptedOther steps
      fun _ _ _ => Nat.le_add_right_of_le before).sameReports
    rwa [List.take_of_length_le (by simpa [length_steps] using before),
      List.take_of_length_le (by simpa [length_steps] using before)] at reached
  · have early : ∀ wiring ∈ first.layout.wirings, wiring.source = .spikeSource position →
        steps ≤ horizon + wiring.params.delay := by
      intro wiring member reads
      obtain ⟨group, described, rule, generator, _, rfl⟩ := exists_of_mem_wirings built member
      obtain ⟨delay, shortest, smallest⟩ := NetworkParams.exists_shortestDelay described
      rw [show group.source = .spikeSource position from reads] at shortest
      exact (within delay shortest).trans (Nat.add_le_add_left smallest horizon)
    have reached := inStep.steps accepted acceptedOther steps early
    exact ⟨reached.reports, reached.snapshot_eq⟩

/-- A description stays acceptable with other acceptable events. -/
theorem acceptable_withEvents
    (acceptable : params.Acceptable processors)
    (found : params.spikeSources[position]? = some source)
    (events : { source with indices := indices, times := times }.Acceptable) :
    (params.withEvents position indices times).Acceptable processors := by
  refine ⟨acceptable.neuronGroups, ?_, ?_, acceptable.technical⟩
  · intro other member
    obtain ⟨index, place⟩ := List.mem_iff_getElem?.mp member
    rw [getElem?_spikeSources_withEvents] at place
    obtain ⟨before, foundBefore, rfl⟩ := Option.map_eq_some_iff.mp place
    split
    · rename_i same
      subst same
      obtain rfl := Option.some.inj (foundBefore.symm.trans found)
      exact events
    · exact acceptable.spikeSources before (List.mem_of_getElem? foundBefore)
  · intro group member
    have sameSize : (params.withEvents position indices times).sourceSize? group.source =
        params.sourceSize? group.source := by
      cases group.source with
      | neuronGroup _ => rfl
      | spikeSource index =>
          rw [NetworkParams.sourceSize?, getElem?_spikeSources_withEvents, Option.map_map]
          refine congrArg (Option.map · _) (funext fun source => ?_)
          rw [Function.comp_apply]
          split <;> rfl
    obtain ⟨source, target, weights, synapse⟩ := acceptable.synapseGroups group member
    rw [← sameSize] at source
    exact ⟨source, target, weights, synapse⟩

/-- If the source of the pair of neurons spikes once more in the fourth step, the reports of the
first three steps are the same, and in the fourth step the spike has not reached the neurons
yet. -/
theorem no_step_depends_on_later_spikes_pair :
    ∃ first second,
      configure 1 .pair = .ok first ∧
      configure 1 (NetworkParams.pair.withEvents 0 [0, 0] [0, 3]) = .ok second ∧
      (second.steps (List.range 3)).1 = (first.steps (List.range 3)).1 ∧
      (second.steps (List.range 4)).2.snapshot = (first.steps (List.range 4)).2.snapshot := by
  have found : NetworkParams.pair.spikeSources[0]? =
      some { size := 1, indices := [0], times := [0] } :=
    rfl
  have once : SpikeSourceParams.events { size := 1, indices := [0], times := [0] } = [⟨0, 0⟩] :=
    SpikeSourceParams.events_of_pairwise (by decide)
  have again : SpikeSourceParams.events { size := 1, indices := [0, 0], times := [0, 3] } =
      [⟨0, 0⟩, ⟨3, 0⟩] :=
    SpikeSourceParams.events_of_pairwise (by decide)
  have acceptable : (NetworkParams.pair.withEvents 0 [0, 0] [0, 3]).Acceptable 1 := by
    refine acceptable_withEvents
      (NetworkParams.violations_eq_nil_iff.mp (by decide +kernel)) found ⟨by decide, by decide, ?_⟩
    rw [again]
    exact SpikeEvent.repeated_eq_nil_iff.mp (by decide)
  have coincide : ∀ event : SpikeEvent, event.time < 3 →
      (event ∈ SpikeSourceParams.events { size := 1, indices := [0], times := [0] } ↔
        event ∈ SpikeSourceParams.events { size := 1, indices := [0, 0], times := [0, 3] }) := by
    intro event early
    have other : event ≠ ⟨3, 0⟩ := fun same => absurd early (by rw [same]; decide)
    rw [once, again]
    simp [other]
  obtain ⟨first, accepted⟩ := exists_configure_pair
  obtain ⟨second, acceptedOther⟩ := @exists_configure 1
    (NetworkParams.pair.withEvents 0 [0, 0] [0, 3]) rfl
    (NetworkParams.violations_eq_nil_iff.mpr acceptable) NetworkParams.parse_pair
  obtain ⟨before, within⟩ :=
    no_step_depends_on_later_spikes accepted acceptedOther found rfl rfl coincide
  exact ⟨first, second, accepted, acceptedOther, before 3 (by decide), (within 4 (by decide)).2⟩

end Network

end Neurochip
