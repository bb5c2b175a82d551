import Mathlib.Data.List.Sort
import Neurochip.Params.Acceptable
import Neurochip.Proofs.Error.Acceptance
import Neurochip.Proofs.SpikeSource.Search

namespace Neurochip

/-!
# Which events a source plays at a time

A source searches a sorted list for the first event that is due, and plays the
events from there up to the first one that is too late.  The main statement says
what it finds when it sorts its events itself and plays them once: this depends
on nothing but which events have the time asked for.
-/

namespace SpikeEvent

/-- An event is played before another one. -/
def Before (first second : SpikeEvent) : Prop :=
  first.time < second.time ∨ first.time = second.time ∧ first.index < second.index

theorem Before.trans
    {first second third : SpikeEvent}
    (earlier : first.Before second)
    (later : second.Before third) :
    first.Before third := by
  unfold Before at *
  omega

theorem Before.time_le
    {first second : SpikeEvent}
    (before : first.Before second) :
    first.time ≤ second.time := by
  unfold Before at before
  omega

instance : Std.Irrefl Before :=
  ⟨fun event before => by unfold Before at before; omega⟩

instance : Std.Antisymm Before :=
  ⟨fun first second before after => by unfold Before at before after; omega⟩

theorem atMost_iff {first second : SpikeEvent} :
    atMost first second = true ↔ first.Before second ∨ first = second := by
  obtain ⟨time, index⟩ := first
  obtain ⟨otherTime, otherIndex⟩ := second
  simp only [atMost, Before, Bool.or_eq_true, Bool.and_eq_true, decide_eq_true_eq, beq_iff_eq,
    mk.injEq]
  omega

/-- Events in order are played one before the other if no event equals the one after it. -/
theorem pairwise_before
    {events : List SpikeEvent}
    (ordered : events.Pairwise fun first second => atMost first second = true)
    (distinct : Distinct events) :
    events.Pairwise Before := by
  induction events with
  | nil => exact .nil
  | cons event rest inductionHypothesis =>
      obtain ⟨first, later⟩ := List.pairwise_cons.mp ordered
      have others : rest.Pairwise Before := inductionHypothesis later
        fun position other place => distinct (position + 1) other place
      refine List.pairwise_cons.mpr ⟨fun other member => ?_, others⟩
      cases rest with
      | nil => cases member
      | cons next rest =>
          have different : event ≠ next := fun same => distinct 0 event rfl (by rw [same]; rfl)
          have here : event.Before next :=
            (atMost_iff.mp (first next List.mem_cons_self)).resolve_right different
          rcases List.mem_cons.mp member with rfl | inRest
          · exact here
          · exact here.trans (List.rel_of_pairwise_cons others inRest)

end SpikeEvent

/-- In a list in order, the items with a key follow those with smaller keys. -/
theorem takeWhile_dropWhile_eq_filter
    {key : α → Nat}
    {items : List α}
    (ordered : items.Pairwise fun first second => key first ≤ key second)
    (sought : Nat) :
    (items.dropWhile (key · < sought)).takeWhile (key · == sought) =
      items.filter (key · == sought) := by
  induction items with
  | nil => rfl
  | cons item rest inductionHypothesis =>
      obtain ⟨first, later⟩ := List.pairwise_cons.mp ordered
      have others := inductionHypothesis later
      rcases Nat.lt_trichotomy (key item) sought with below | rfl | above
      · simp [below, others, below.ne]
      · -- From the first item with the key on, no item is too small.
        have reached : rest.dropWhile (key · < key item) = rest := by
          cases rest with
          | nil => rfl
          | cons next _ =>
              exact List.dropWhile_cons_of_neg (by simpa using first next List.mem_cons_self)
        rw [reached] at others
        simp [others]
      · have absent : rest.filter (key · == sought) = [] := by
          rw [List.filter_eq_nil_iff]
          intro other member
          have := first other member
          simp only [beq_iff_eq]
          omega
        simp [Nat.not_lt.mpr above.le, above.ne', absent]

namespace SpikeSourceParams

/-- Events that are in order already are played as they are listed. -/
theorem events_of_pairwise
    {params : SpikeSourceParams}
    (ordered : (List.zipWith SpikeEvent.mk params.times params.indices).Pairwise
      fun first second => SpikeEvent.atMost first second = true) :
    params.events = List.zipWith SpikeEvent.mk params.times params.indices := by
  unfold events
  split
  · rfl
  · exact List.mergeSort_of_pairwise ordered

/-- A source that sorts its events itself has them in order. -/
theorem pairwise_events
    {params : SpikeSourceParams}
    (unsorted : params.sorted = false) :
    params.events.Pairwise fun first second => SpikeEvent.atMost first second = true := by
  have total : ∀ first second,
      (SpikeEvent.atMost first second || SpikeEvent.atMost second first) = true := by
    intro first second
    simp only [SpikeEvent.atMost, Bool.or_eq_true, Bool.and_eq_true, decide_eq_true_eq,
      beq_iff_eq]
    omega
  have transitive : ∀ first second third, SpikeEvent.atMost first second = true →
      SpikeEvent.atMost second third = true → SpikeEvent.atMost first third = true := by
    intro first second third
    simp only [SpikeEvent.atMost, Bool.or_eq_true, Bool.and_eq_true, decide_eq_true_eq,
      beq_iff_eq]
    omega
  rw [SpikeSourceParams.events, unsorted]
  exact List.pairwise_mergeSort transitive total _

/-- A source that sorts its events itself plays them one before the other. -/
theorem Acceptable.pairwise_before
    {params : SpikeSourceParams}
    (acceptable : params.Acceptable)
    (unsorted : params.sorted = false) :
    params.events.Pairwise SpikeEvent.Before :=
  SpikeEvent.pairwise_before (pairwise_events unsorted) acceptable.events

end SpikeSourceParams

namespace SpikeSource

/-- A source is created from complete and acceptable events. -/
theorem create_eq_ok_iff {params : SpikeSourceParams} {source : SpikeSource} :
    create params = .ok source ↔
      params.indices.length = params.times.length ∧ params.Acceptable ∧
        ofParams params = source := by
  rw [create, check_bind_eq_ok_iff, check_bind_eq_ok_iff, Refusal.checkLengths_eq_ok_iff,
    Refusal.checkValid_eq_ok_iff, SpikeSourceParams.violations_eq_nil_iff, pure_eq_ok_iff]

/-- A source whose events are in order plays at each time the events with its local time. -/
theorem dueAt_eq_filter
    {source : SpikeSource}
    (ordered : source.events.Pairwise fun first second => first.time ≤ second.time)
    (time : Nat) :
    source.dueAt time =
      (source.events.filter (·.time == source.localTime time)).map (·.index) := by
  rw [dueAt_eq_scan ordered, takeWhile_dropWhile_eq_filter ordered]

/-- A source that plays its events once, and sorts them itself, plays at each time the events with
this time. -/
theorem dueAt_ofParams
    {params : SpikeSourceParams}
    (acceptable : params.Acceptable)
    (unsorted : params.sorted = false)
    (once : params.period = 0)
    (time : Nat) :
    (ofParams params).dueAt time =
      (params.events.filter (·.time == time)).map (·.index) := by
  have ordered : params.events.Pairwise fun first second => first.time ≤ second.time :=
    (acceptable.pairwise_before unsorted).imp SpikeEvent.Before.time_le
  have now : (ofParams params).localTime time = time := if_pos once
  have due := @dueAt_eq_filter (ofParams params) ordered time
  rwa [now] at due

/-- What is played at a time depends on nothing but which events have this time. -/
theorem dueAt_ofParams_congr
    {params others : SpikeSourceParams}
    (acceptable : params.Acceptable)
    (acceptableOthers : others.Acceptable)
    (unsorted : params.sorted = false ∧ others.sorted = false)
    (once : params.period = 0 ∧ others.period = 0)
    {time : Nat}
    (same : ∀ event, event.time = time → (event ∈ params.events ↔ event ∈ others.events)) :
    (ofParams params).dueAt time = (ofParams others).dueAt time := by
  rw [dueAt_ofParams acceptable unsorted.1 once.1,
    dueAt_ofParams acceptableOthers unsorted.2 once.2]
  refine congrArg (List.map _) (List.Pairwise.eq_of_mem_iff
    ((acceptable.pairwise_before unsorted.1).filter _)
    ((acceptableOthers.pairwise_before unsorted.2).filter _) fun event => ?_)
  rw [List.mem_filter, List.mem_filter, beq_iff_eq]
  exact and_congr_left (same event)

end SpikeSource

end Neurochip
