import Mathlib.Data.Nat.Periodic
import Neurochip.Proofs.SpikeSource.Playback

namespace Neurochip

/-!
# Every event of a source fires once in each period

A source is described by a list of times and a list of indices, and plays the
events that these make up.  A repeated event is refused, so the events of an
accepted source can be put in order one before the other, and each of them has
one place in the pattern.  The main statement follows the calls of a source: at
each time it emits the events with the local time in order of their indices, so
that a window of one period has every event exactly once, wherever it begins.
-/

/-- A window of one period has each place of the period once. -/
theorem countP_window
    {period place : Nat}
    (inside : place < period)
    (start : Nat) :
    (List.range' start period).countP (fun time => decide (time % period = place)) = 1 := by
  have periodic : Function.Periodic (fun time => time % period = place) period :=
    fun time => by simp
  have counted := Nat.filter_multiset_Ico_card_eq_of_periodic start period _ periodic
  have window :
      Multiset.Ico start (start + period) = (List.range' start period : Multiset Nat) := by
    show ((List.range' start (start + period - start) : List Nat) : Multiset Nat) = _
    rw [Nat.add_sub_cancel_left]
  have only :
      (Finset.range period).filter (fun time => time % period = place) = {place} := by
    ext time
    simp only [Finset.mem_filter, Finset.mem_range, Finset.mem_singleton]
    constructor
    · rintro ⟨small, rfl⟩
      exact (Nat.mod_eq_of_lt small).symm
    · rintro rfl
      exact ⟨inside, Nat.mod_eq_of_lt inside⟩
  rw [window, Multiset.filter_coe, Multiset.coe_card, ← List.countP_eq_length_filter,
    Nat.count_eq_card_filter_range, only, Finset.card_singleton] at counted
  exact counted

namespace SpikeSourceParams

/-- The events that a source is described by, in the order of the description. -/
def declared (params : SpikeSourceParams) : List SpikeEvent :=
  List.zipWith SpikeEvent.mk params.times params.indices

/-- The declared events are in order by time, then by index. -/
def InOrder (params : SpikeSourceParams) : Prop :=
  params.declared.Pairwise fun first second => SpikeEvent.atMost first second = true

variable {params : SpikeSourceParams}

/-- A source plays the declared events and no others. -/
theorem events_perm_declared (params : SpikeSourceParams) :
    params.events.Perm params.declared := by
  unfold events
  split
  · exact .refl _
  · exact List.mergeSort_perm _ _

/-- Every declared event has a declared time. -/
theorem time_mem_of_mem_declared
    {event : SpikeEvent}
    (member : event ∈ params.declared) :
    event.time ∈ params.times := by
  obtain ⟨position, inside, rfl⟩ := List.mem_iff_getElem.mp member
  simp [declared]

/-- The events of an accepted source are played one before the other, if they are in order wherever
the source does not sort them itself. -/
theorem Acceptable.events_before
    (acceptable : params.Acceptable)
    (trusted : params.sorted = true → params.InOrder) :
    params.events.Pairwise SpikeEvent.Before := by
  cases declares : params.sorted with
  | false => exact acceptable.pairwise_before declares
  | true =>
      have kept : params.events = params.declared := events_of_pairwise (trusted declares)
      refine SpikeEvent.pairwise_before ?_ acceptable.events
      rw [kept]
      exact trusted declares

end SpikeSourceParams

namespace SpikeSource

/-- The events that fire while a source emits the spikes of some times, one after the other. -/
def play (source : SpikeSource) : List Nat → List SpikeEvent
  | [] => []
  | time :: rest =>
      (source.emit time).lastSpikes.map (SpikeEvent.mk (source.localTime time)) ++
        (source.emit time).play rest

/-- What a source has emitted does not matter for what it plays. -/
theorem dueAt_emits (source : SpikeSource) (calls : List Nat) (time : Nat) :
    (calls.foldl emit source).dueAt time = source.dueAt time := by
  induction calls generalizing source with
  | nil => rfl
  | cons call rest inductionHypothesis => exact inductionHypothesis (source.emit call)

variable {source : SpikeSource}

/-- The events that are due are due in order of their indices. -/
theorem pairwise_dueAt
    (before : source.events.Pairwise SpikeEvent.Before)
    (time : Nat) :
    (source.dueAt time).Pairwise (· < ·) := by
  have ordered := before.imp SpikeEvent.Before.time_le
  rw [dueAt_eq_filter ordered, List.pairwise_map]
  refine (before.filter _).imp_of_mem ?_
  intro first second firstMember secondMember earlier
  have firstTime := beq_iff_eq.mp (List.mem_filter.mp firstMember).2
  have secondTime := beq_iff_eq.mp (List.mem_filter.mp secondMember).2
  unfold SpikeEvent.Before at earlier
  omega

/-- An index is due when there is an event with it at the local time. -/
theorem mem_dueAt_iff
    (ordered : source.events.Pairwise fun first second => first.time ≤ second.time)
    {time index : Nat} :
    index ∈ source.dueAt time ↔ ⟨source.localTime time, index⟩ ∈ source.events := by
  rw [dueAt_eq_filter ordered, List.mem_map]
  constructor
  · rintro ⟨event, member, rfl⟩
    obtain ⟨listed, here⟩ := List.mem_filter.mp member
    rwa [← beq_iff_eq.mp here]
  · intro listed
    exact ⟨_, List.mem_filter.mpr ⟨listed, beq_self_eq_true _⟩, rfl⟩

/-- The events that fire at a time are those with its local time. -/
theorem map_dueAt
    (ordered : source.events.Pairwise fun first second => first.time ≤ second.time)
    (time : Nat) :
    (source.dueAt time).map (SpikeEvent.mk (source.localTime time)) =
      source.events.filter (·.time == source.localTime time) := by
  rw [dueAt_eq_filter ordered, List.map_map]
  refine (List.map_congr_left fun event member => ?_).trans (List.map_id _)
  have here : event.time = source.localTime time :=
    beq_iff_eq.mp (List.mem_filter.mp member).2
  simp only [Function.comp_apply, ← here, id]

/-- An event fires as often as its place in the pattern is reached, in whatever order. -/
theorem count_play
    (before : source.events.Pairwise SpikeEvent.Before)
    {event : SpikeEvent}
    (listed : event ∈ source.events)
    (times : List Nat) :
    (source.play times).count event =
      times.countP fun time => decide (source.localTime time = event.time) := by
  have once : source.events.count event = 1 :=
    List.count_eq_one_of_mem (before.imp fun earlier same => by
      subst same
      exact irrefl _ earlier) listed
  induction times generalizing source with
  | nil => rfl
  | cons time rest inductionHypothesis =>
      have later : ((source.emit time).play rest).count event =
          rest.countP fun time => decide (source.localTime time = event.time) :=
        @inductionHypothesis (source.emit time) before listed once
      have now : (source.emit time).lastSpikes.map (SpikeEvent.mk (source.localTime time)) =
          source.events.filter (·.time == source.localTime time) :=
        map_dueAt (before.imp SpikeEvent.Before.time_le) time
      rw [play, List.count_append, later, now, List.countP_cons]
      by_cases here : source.localTime time = event.time
      · rw [List.count_filter (by simp [here]), once]
        simp [here, Nat.add_comm]
      · have absent :
            event ∉ source.events.filter (·.time == source.localTime time) := by
          simp [Ne.symm here]
        simp [List.count_eq_zero.mpr absent, here]

/-- An accepted source whose events are in order, or are sorted by the source itself, is due at each
time with the strictly increasing indices of the events declared for its place in the period, and
emits them whatever it has emitted before.  So each declared event fires once in every window of one
period, and a source without a period fires it whenever its time is stepped and at no other time. -/
theorem each_event_fires_once_per_period
    {params : SpikeSourceParams}
    {source : SpikeSource}
    (created : create params = .ok source)
    (trusted : params.sorted = true → params.InOrder) :
    (∀ time,
      (source.dueAt time).Pairwise (· < ·) ∧
      ∀ index,
        index ∈ source.dueAt time ↔
          ⟨if 0 < params.period then time % params.period else time, index⟩ ∈
            params.declared) ∧
    (∀ (calls : List Nat) time,
      ((calls.foldl emit source).emit time).lastSpikes = source.dueAt time) ∧
    (0 < params.period → ∀ start, ∀ event ∈ params.declared,
      (source.play (List.range' start params.period)).count event = 1) ∧
    (params.period = 0 → ∀ event ∈ params.declared, ∀ times,
      (source.play times).count event = times.count event.time) := by
  obtain ⟨_, acceptable, rfl⟩ := create_eq_ok_iff.mp created
  have before : (ofParams params).events.Pairwise SpikeEvent.Before :=
    acceptable.events_before trusted
  have ordered := before.imp SpikeEvent.Before.time_le
  have listed : ∀ {event}, event ∈ (ofParams params).events ↔ event ∈ params.declared :=
    params.events_perm_declared.mem_iff
  refine ⟨fun time => ⟨pairwise_dueAt before time, fun index => ?_⟩, ?_, ?_, ?_⟩
  · have place : (ofParams params).localTime time =
        if 0 < params.period then time % params.period else time := by
      rcases Nat.eq_zero_or_pos params.period with once | repeats
      · rw [if_neg (by omega)]
        exact if_pos once
      · rw [if_pos repeats]
        exact if_neg repeats.ne'
    rw [mem_dueAt_iff ordered, place, listed]
  · exact fun calls time => dueAt_emits (ofParams params) calls time
  · intro repeats start event declares
    have inside : event.time < params.period :=
      acceptable.times repeats _ (SpikeSourceParams.time_mem_of_mem_declared declares)
    have place : ∀ time, (ofParams params).localTime time = time % params.period :=
      fun time => if_neg repeats.ne'
    rw [count_play before (listed.mpr declares)]
    simp only [place]
    exact countP_window inside start
  · intro once event declares times
    have place : ∀ time, (ofParams params).localTime time = time := fun time => if_pos once
    rw [count_play before (listed.mpr declares)]
    simp only [place]
    rfl

/-- A source in order that repeats every five steps fires its event at three once between seven and
twelve, and one that sorts its two events and does not repeat them fires the later one at its time
only. -/
theorem each_event_fires_once_per_period_at_three :
    (∃ source,
      create ⟨8, [2, 4, 6], [0, 3, 3], 5, true⟩ = .ok source ∧
      SpikeSourceParams.InOrder ⟨8, [2, 4, 6], [0, 3, 3], 5, true⟩ ∧
      (source.dueAt 13).Pairwise (· < ·) ∧
      6 ∈ source.dueAt 13 ∧
      (([9, 2].foldl emit source).emit 13).lastSpikes = source.dueAt 13 ∧
      (source.play (List.range' 7 5)).count ⟨3, 6⟩ = 1) ∧
    ∃ source,
      create ⟨2, [1, 0], [3, 0], 0, false⟩ = .ok source ∧
      (source.play [13, 3, 8]).count ⟨3, 1⟩ = 1 := by
  have presorted := create_eq_ok_iff.mpr
    ⟨rfl, SpikeSourceParams.violations_eq_nil_iff.mp
      (by decide : SpikeSourceParams.violations ⟨8, [2, 4, 6], [0, 3, 3], 5, true⟩ [] = []),
      rfl⟩
  have unsorted := create_eq_ok_iff.mpr
    ⟨rfl, SpikeSourceParams.violations_eq_nil_iff.mp
      (by cbv : SpikeSourceParams.violations ⟨2, [1, 0], [3, 0], 0, false⟩ [] = []),
      rfl⟩
  have inOrder : SpikeSourceParams.InOrder ⟨8, [2, 4, 6], [0, 3, 3], 5, true⟩ := by
    unfold SpikeSourceParams.InOrder
    decide
  obtain ⟨due, emitted, once, -⟩ :=
    each_event_fires_once_per_period presorted fun _ => inOrder
  obtain ⟨-, -, -, atItsTime⟩ :=
    each_event_fires_once_per_period unsorted fun declares => by cases declares
  exact ⟨⟨_, presorted, inOrder, (due 13).1, ((due 13).2 6).mpr (by decide),
      emitted [9, 2] 13, once (by decide) 7 ⟨3, 6⟩ (by decide)⟩,
    ⟨_, unsorted, atItsTime rfl ⟨3, 1⟩ (by decide) [13, 3, 8]⟩⟩

end SpikeSource

end Neurochip
