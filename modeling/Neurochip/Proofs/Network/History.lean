import Neurochip.Proofs.DelayLine.Upcoming
import Neurochip.Proofs.Network.Configured

namespace Neurochip

/-!
# Spikes in the history of a network

The reports of all steps so far tell which spikes every object has sent in which
step, and so which spikes arrive at a synapse group in a later one: those of the
step that is its delay away.  A spike of a neuron is sent in the step after the
one that reports it.
-/

/-- The spikes that the report of a step lists for an object. -/
def spikesAt (history : List StepReport) (object : ObjectId) (step : Nat) : List Nat :=
  (history[step]?.bind (·.indicesFor object)).getD []

/-- The spikes of a source that set out in a step. -/
def sentAt (history : List StepReport) : SourceRef → Nat → List Nat
  | .spikeSource source, step => spikesAt history (.spikeSource source) step
  | .neuronGroup _, 0 => []
  | .neuronGroup group, step + 1 => spikesAt history (.neuronGroup group) step

/-- The spikes that arrive at a synapse group in a step. -/
def arrivalsAt (history : List StepReport) (group : SynapseGroup) (step : Nat) : List Nat :=
  if group.params.delay ≤ step then
    sentAt history group.source (step - group.params.delay)
  else
    []

theorem spikesAt_append
    {history : List StepReport}
    {step : Nat}
    (earlier : step < history.length)
    (later : List StepReport)
    (object : ObjectId) :
    spikesAt (history ++ later) object step = spikesAt history object step := by
  rw [spikesAt, spikesAt, List.getElem?_append_left earlier]

theorem spikesAt_last (history : List StepReport) (report : StepReport) (object : ObjectId) :
    spikesAt (history ++ [report]) object history.length =
      (report.indicesFor object).getD [] := by
  simp [spikesAt]

/-- Later reports do not change what has set out in earlier steps. -/
theorem sentAt_append
    {history : List StepReport}
    {step : Nat}
    (earlier : step < history.length)
    (later : List StepReport)
    (source : SourceRef) :
    sentAt (history ++ later) source step = sentAt history source step := by
  cases source with
  | spikeSource source => exact spikesAt_append earlier later _
  | neuronGroup group =>
      cases step with
      | zero => rfl
      | succ step => exact spikesAt_append (by omega) later _

/-- Later reports do not change what arrives within the delay. -/
theorem arrivalsAt_append
    {history : List StepReport}
    {group : SynapseGroup}
    {step : Nat}
    (earlier : step < history.length + group.params.delay)
    (later : List StepReport) :
    arrivalsAt (history ++ later) group step = arrivalsAt history group step := by
  unfold arrivalsAt
  split
  · exact sentAt_append (by omega) later _
  · rfl

/-- Each entry made of a numbered list is found under its number. -/
private theorem find?_entries
    (items : List α)
    {object : Nat → ObjectId}
    (different : ∀ first second, object first = object second → first = second)
    (indices : α → List Nat)
    (start index : Nat) :
    (((items.zipIdx start).map fun (item, position) =>
        ({ object := object position, indices := indices item } : SpikeGroup)).find?
      fun entry => decide (entry.object = object (start + index))).map (·.indices) =
      items[index]?.map indices := by
  induction items generalizing start index with
  | nil => rfl
  | cons item rest inductionHypothesis =>
      rw [List.zipIdx_cons, List.map_cons]
      cases index with
      | zero =>
          rw [List.find?_cons_of_pos (by simp)]
          rfl
      | succ index =>
          have other : object start ≠ object (start + (index + 1)) := fun same =>
            absurd (different _ _ same) (by omega)
          rw [List.find?_cons_of_neg (by simpa using other),
            show start + (index + 1) = start + 1 + index by omega, inductionHypothesis]
          rfl

namespace Network

/-- The report of a step covers each source, with what it has emitted. -/
theorem indicesFor_reportOf_spikeSource (network : Network) (time source : Nat) :
    (network.reportOf time).indicesFor (.spikeSource source) =
      (network.emit time).spikeSources[source]?.map (·.lastSpikes) := by
  have absent : (network.halfway time).firedSpikes.find?
      (fun entry => decide (entry.object = .spikeSource source)) = none := by
    simp [firedSpikes]
  have emitted := find?_entries (network.emit time).spikeSources
    (fun _ _ => ObjectId.spikeSource.inj) (·.lastSpikes) 0 source
  rw [Nat.zero_add] at emitted
  rw [StepReport.indicesFor, reportOf, List.find?_append, absent, Option.or_none]
  exact emitted

/-- The report of a step covers each neuron group, with those of its neurons that have spiked. -/
theorem indicesFor_reportOf_neuronGroup (network : Network) (time group : Nat) :
    (network.reportOf time).indicesFor (.neuronGroup group) =
      (network.next time).neuronGroups[group]?.map (·.lastSpikes) := by
  have absent : (network.emit time).emittedSpikes.find?
      (fun entry => decide (entry.object = .neuronGroup group)) = none := by
    simp [emittedSpikes]
  have fired := find?_entries (network.fired time)
    (fun _ _ => ObjectId.neuronGroup.inj) (·.lastSpikes) 0 group
  rw [Nat.zero_add] at fired
  rw [StepReport.indicesFor, reportOf, List.find?_append, absent, Option.none_or]
  exact fired

/-- The report of a step covers no synapses. -/
theorem indicesFor_reportOf_synapses (network : Network) (time group : Nat) :
    (network.reportOf time).indicesFor (.synapses group) = none := by
  simp [StepReport.indicesFor, reportOf, emittedSpikes, firedSpikes]

/-- The report of a step lists what each source has emitted. -/
theorem indicesFor_spikeSource (network : Network) (time source : Nat) :
    ((network.reportOf time).indicesFor (.spikeSource source)).getD [] =
      (network.emit time).lastSpikes (.spikeSource source) := by
  rw [indicesFor_reportOf_spikeSource, lastSpikes]
  cases (network.emit time).spikeSources[source]? <;> rfl

/-- The report of a step lists which neurons of each group have spiked. -/
theorem indicesFor_neuronGroup (network : Network) (time group : Nat) :
    ((network.reportOf time).indicesFor (.neuronGroup group)).getD [] =
      (network.next time).lastSpikes (.neuronGroup group) := by
  rw [indicesFor_reportOf_neuronGroup, lastSpikes]
  cases (network.next time).neuronGroups[group]? <;> rfl

/-- The spikes on their way are those that the history has sent and that have not arrived. -/
structure Carries (history : List StepReport) (network : Network) : Prop where
  fired : ∀ group,
    network.lastSpikes (.neuronGroup group) =
      sentAt history (.neuronGroup group) history.length
  upcoming : ∀ group ∈ network.synapseGroups,
    group.inFlight.upcoming =
      (List.range group.params.delay).map
        (fun ahead => arrivalsAt history group (history.length + ahead)) ++ [[]]

/-- With the report of a step, the history has sent what the step has sent. -/
theorem Carries.sentAt_last
    {history : List StepReport}
    {network : Network}
    (carries : Carries history network)
    (time : Nat)
    (source : SourceRef) :
    sentAt (history ++ [network.reportOf time]) source history.length =
      (network.emit time).lastSpikes source := by
  cases source with
  | spikeSource source =>
      rw [sentAt, spikesAt_last, indicesFor_spikeSource]
  | neuronGroup index =>
      have kept : (network.emit time).lastSpikes (.neuronGroup index) =
          network.lastSpikes (.neuronGroup index) := rfl
      rw [kept, carries.fired]
      cases last : history.length with
      | zero => rfl
      | succ step => exact spikesAt_append (by omega) _ _

/-- The spikes that a step gives to a synapse group are those that set out in it. -/
theorem Carries.spikes_stimulus
    {history : List StepReport}
    {network : Network}
    (carries : Carries history network)
    (time : Nat)
    (group : SynapseGroup) :
    (network.stimulus time group).spikes =
      sentAt (history ++ [network.reportOf time]) group.source history.length := by
  rw [stimulus, carries.sentAt_last]

/-- When the spikes of a step have set out, the delay line of a synapse group holds what arrives in
this step and in the steps up to its delay. -/
theorem Carries.upcoming_scheduled
    {history : List StepReport}
    {network : Network}
    (carries : Carries history network)
    (time : Nat)
    {group : SynapseGroup}
    (member : group ∈ network.synapseGroups)
    (reach : group.inFlight.length = group.params.delay + 1) :
    (group.inFlight.schedule group.params.delay (network.stimulus time group).spikes).upcoming =
      (List.range (group.params.delay + 1)).map fun ahead =>
        arrivalsAt (history ++ [network.reportOf time]) group (history.length + ahead) := by
  have farthest :
      arrivalsAt (history ++ [network.reportOf time]) group
          (history.length + group.params.delay) =
        (network.stimulus time group).spikes := by
    rw [carries.spikes_stimulus, arrivalsAt, if_pos (by omega), Nat.add_sub_cancel]
  rw [DelayLine.upcoming_schedule_last reach (carries.upcoming group member),
    List.range_succ, List.map_append, List.map_singleton, farthest]
  refine congrArg (· ++ [_]) (List.map_congr_left ?_)
  intro ahead within
  rw [List.mem_range] at within
  exact (arrivalsAt_append (by omega) _).symm

/-- What arrives in a step is what has set out a delay before it. -/
theorem Carries.arriving_eq
    {history : List StepReport}
    {network : Network}
    (carries : Carries history network)
    (time : Nat)
    {group : SynapseGroup}
    (member : group ∈ network.synapseGroups)
    (reach : group.inFlight.length = group.params.delay + 1) :
    group.arriving (network.stimulus time group).spikes =
      arrivalsAt (history ++ [network.reportOf time]) group history.length := by
  have scheduled := carries.upcoming_scheduled time member reach
  rw [List.range_succ_eq_map, List.map_cons] at scheduled
  exact (DelayLine.drain_of_upcoming scheduled).1

/-- What arrives at a group depends on its wiring alone. -/
theorem arrivalsAt_congr
    {group other : SynapseGroup}
    (sameWiring : other.wiring = group.wiring)
    (history : List StepReport)
    (step : Nat) :
    arrivalsAt history other step = arrivalsAt history group step := by
  have params : other.params = group.params := congrArg SynapseGroup.Wiring.params sameWiring
  have source : other.source = group.source := congrArg SynapseGroup.Wiring.source sameWiring
  rw [arrivalsAt, arrivalsAt, params, source]

theorem Layout.Sound.reach_of_mem
    {network : Network}
    (sound : network.layout.Sound)
    {group : SynapseGroup}
    (member : group ∈ network.synapseGroups) :
    group.inFlight.length = group.params.delay + 1 :=
  sound.reach group.wiring (List.mem_map_of_mem member)

/-- After a step the spikes on their way are those of the history with the step. -/
theorem Carries.next
    {history : List StepReport}
    {network : Network}
    (carries : Carries history network)
    (sound : network.layout.Sound)
    (time : Nat) :
    Carries (history ++ [network.reportOf time]) (network.next time) := by
  constructor
  · intro group
    rw [List.length_append, List.length_singleton, sentAt, spikesAt_last,
      indicesFor_neuronGroup]
  · intro after member
    obtain ⟨group, memberBefore, rfl⟩ := List.mem_map.mp member
    have sameWiring := wiring_steppedGroup network time group
    have params : (network.steppedGroup time group).2.params = group.params :=
      congrArg SynapseGroup.Wiring.params sameWiring
    have scheduled := carries.upcoming_scheduled time memberBefore
      (sound.reach_of_mem memberBefore)
    rw [List.range_succ_eq_map, List.map_cons, List.map_map] at scheduled
    rw [steppedGroup, SynapseGroup.inFlight_stepped,
      (DelayLine.drain_of_upcoming scheduled).2, ← steppedGroup, params]
    refine congrArg (· ++ [[]]) (List.map_congr_left ?_)
    intro ahead _
    rw [arrivalsAt_congr sameWiring, List.length_append, List.length_singleton,
      Function.comp_apply, Nat.add_assoc, Nat.succ_eq_one_add]

/-- Setting weights changes nothing about the spikes on their way. -/
theorem Carries.setWeights
    {history : List StepReport}
    {network after : Network}
    (carries : Carries history network)
    {position : Nat}
    {mantissas : List Int}
    (accepted : network.setWeights position mantissas = some (.ok after)) :
    Carries history after := by
  obtain ⟨group, changed, found, groupAccepted, rfl⟩ := setWeights_eq_ok_iff.mp accepted
  refine ⟨carries.fired, ?_⟩
  intro other member
  rcases List.mem_or_eq_of_mem_set member with old | rfl
  · exact carries.upcoming other old
  · obtain ⟨_, _, rfl⟩ := SynapseGroup.setWeights_eq_ok_iff.mp groupAccepted
    exact carries.upcoming group (List.mem_of_getElem? found)

end Network

end Neurochip
