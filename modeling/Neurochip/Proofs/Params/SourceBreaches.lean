import Mathlib.Data.List.Count
import Neurochip.Proofs.Params.Listing
import Neurochip.Proofs.SpikeSource.Playback

namespace Neurochip

/-!
# Constraints on spike sources

The spikes of a source belong to its neurons and to its period, and no event
equals the one after it.  The main statements say that the checks of a source
miss nothing, and that among events in order each one is listed once less than
it occurs.
-/

namespace SpikeEvent

/-- The repeated events are the first ones of equal neighbours. -/
theorem map_repeated (report : SpikeEvent → Violation) (events : List SpikeEvent) :
    (repeated events).map report =
      (events.zip events.tail).flatMap fun (event, next) =>
        if event ≠ next then [] else [report event] := by
  induction events with
  | nil => rfl
  | cons event rest inductionHypothesis =>
      cases rest with
      | nil => rfl
      | cons next rest =>
          simp only [repeated, List.tail_cons, List.zip_cons_cons, List.flatMap_cons] at *
          rw [← inductionHypothesis]
          by_cases same : event = next
          · simp [same]
          · simp [same]

/-- Among events in order, those equal to one another are neighbours: an event that occurs a number
of times is repeated once less. -/
theorem count_repeated
    {events : List SpikeEvent}
    (ordered : events.Pairwise fun first second => atMost first second = true)
    (event : SpikeEvent) :
    (repeated events).count event = events.count event - 1 := by
  induction events with
  | nil => rfl
  | cons first rest inductionHypothesis =>
      obtain ⟨here, later⟩ := List.pairwise_cons.mp ordered
      have others := inductionHypothesis later
      cases rest with
      | nil => by_cases same : first = event <;> simp [repeated, same]
      | cons next rest =>
          have counted : (first :: next :: rest).count event =
              (next :: rest).count event + if first == event then 1 else 0 := List.count_cons
          rw [counted, repeated]
          by_cases same : first = next
          · rw [if_pos same, List.count_cons, others]
            by_cases sought : first = event
            · have member : 0 < (next :: rest).count event := by
                rw [List.count_pos_iff, ← sought, same]
                exact List.mem_cons_self
              simp only [sought, beq_self_eq_true, if_true]
              omega
            · simp [sought]
          · rw [if_neg same, others]
            by_cases sought : first = event
            · -- The first event is before the next one, and so before all later ones.
              have absent : (next :: rest).count event = 0 := by
                rw [List.count_eq_zero, ← sought]
                intro member
                have before := (atMost_iff.mp (here next List.mem_cons_self)).resolve_right same
                rcases List.mem_cons.mp member with again | inRest
                · exact same again
                · rcases atMost_iff.mp (List.rel_of_pairwise_cons later inRest) with after | equal
                  · exact irrefl first (before.trans after)
                  · exact same equal.symm
              simp [absent, sought]
            · simp [sought]

end SpikeEvent

namespace SpikeSourceParams

/-- What is constrained of a source, at each position of its lists. -/
inductive Constraint where
  | index (position : Nat)
  | time (position : Nat)
  /-- An event differs from the one after it. -/
  | event (position : Nat)
  deriving Repr, DecidableEq

/-- The place of a constraint in the order in which violations are listed. -/
def Constraint.rank : Constraint → List Nat
  | index position => [0, position]
  | time position => [1, position]
  | event position => [2, position]

/-- The source found at a path breaks a constraint, and the violation says so. -/
def Breaks (params : SpikeSourceParams) (path : Path) : Constraint → Violation → Prop
  | .index position, violation =>
      ∃ index, params.indices[position]? = some index ∧ params.size ≤ index ∧
        violation =
          .notBelow (path ++ [.field "indices", .item position]) .neuronCount params.size index
  | .time position, violation =>
      0 < params.period ∧ ∃ time, params.times[position]? = some time ∧ params.period ≤ time ∧
        violation =
          .notBelow (path ++ [.field "times", .item position]) .period params.period time
  | .event position, violation =>
      ∃ event, params.events[position]? = some event ∧
        params.events[position + 1]? = some event ∧
        violation = .repeatedEvent (path ++ [.field "indices"]) event.index event.time

variable (params : SpikeSourceParams) (path : Path)

theorem listing_indices :
    Listing (fun constraint => ∃ position, constraint = .index position)
      (params.Breaks path) Constraint.rank
      (checkEach
        (fun position index => Violation.ofLimit (path ++ [.field "indices", .item position])
          .neuronCount params.size index)
        params.indices) := by
  refine Listing.checkEach_single (fun position index found => ?_) (fun _ => rfl) ?_
  · exact Listing.single_ofLimit fun violation => by simp [Breaks, found]
  · rintro position violation ⟨index, found, _⟩
    exact (List.getElem?_eq_some_iff.mp found).1

/-- Without a period no time is constrained. -/
theorem listing_times :
    Listing (fun constraint => ∃ position, constraint = .time position)
      (params.Breaks path) Constraint.rank
      (if params.period = 0 then
        []
      else
        checkEach
          (fun position time => Violation.ofLimit (path ++ [.field "times", .item position])
            .period params.period time)
          params.times) := by
  split
  · rename_i unlimited
    refine Listing.nil.widen (by simp) ?_
    rintro _ violation ⟨position, rfl⟩ ⟨positive, _⟩
    omega
  · rename_i limited
    refine Listing.checkEach_single (fun position time found => ?_) (fun _ => rfl) ?_
    · exact Listing.single_ofLimit fun violation => by
        simp [Breaks, found, Nat.pos_of_ne_zero limited]
    · rintro position violation ⟨_, time, found, _⟩
      exact (List.getElem?_eq_some_iff.mp found).1

theorem listing_events :
    Listing (fun constraint => ∃ position, constraint = .event position)
      (params.Breaks path) Constraint.rank
      ((SpikeEvent.repeated params.events).map fun event =>
        .repeatedEvent (path ++ [.field "indices"]) event.index event.time) := by
  rw [SpikeEvent.map_repeated, ← checkEach_const]
  refine Listing.checkEach_single (fun position (event, next) found => ?_) (fun _ => rfl) ?_
  · obtain ⟨first, second⟩ := List.getElem?_zip_eq_some.mp found
    rw [List.getElem?_tail] at second
    refine Listing.single fun violation => ?_
    simp only [Breaks, first, second, Option.some.injEq, ne_eq, not_not]
    constructor
    · rintro ⟨_, rfl, rfl, rfl⟩
      exact ⟨rfl, rfl⟩
    · rintro ⟨rfl, rfl⟩
      exact ⟨event, rfl, rfl, rfl⟩
  · rintro position violation ⟨event, _, next, _⟩
    have := (List.getElem?_eq_some_iff.mp next).1
    rw [List.length_zip, List.length_tail]
    omega

theorem listing_violations :
    Listing (fun _ => True) (params.Breaks path) Constraint.rank (params.violations path) := by
  refine (((params.listing_indices path).append (params.listing_times path) ?_).append
    (params.listing_events path) ?_).congr ?_
  · rintro _ _ ⟨position, rfl⟩ ⟨later, rfl⟩
    simp [Constraint.rank, List.cons_lt_cons_iff]
  · rintro _ _ (⟨position, rfl⟩ | ⟨position, rfl⟩) ⟨later, rfl⟩ <;>
      simp [Constraint.rank, List.cons_lt_cons_iff]
  · rintro (_ | _ | _) <;> simp

/-- A repeated event is listed at the indices of its source. -/
theorem path_of_mem_violations
    {params : SpikeSourceParams}
    {path place : Path}
    {index time : Nat}
    (member : .repeatedEvent place index time ∈ params.violations path) :
    place = path ++ [.field "indices"] := by
  obtain ⟨constraint, _, breach⟩ := (params.listing_violations path).exists_of_mem member
  cases constraint with
  | index position =>
      obtain ⟨_, _, _, impossible⟩ := breach
      cases impossible
  | time position =>
      obtain ⟨_, _, _, _, impossible⟩ := breach
      cases impossible
  | event position =>
      obtain ⟨_, _, _, same⟩ := breach
      exact (Violation.repeatedEvent.inj same).1

/-- An event is listed as often as it is repeated. -/
theorem count_repeatedEvent (event : SpikeEvent) :
    (params.violations path).count
        (.repeatedEvent (path ++ [.field "indices"]) event.index event.time) =
      (SpikeEvent.repeated params.events).count event := by
  rw [violations, List.count_append, List.count_append]
  have indices := params.listing_indices path
  have times := params.listing_times path
  rw [List.count_eq_zero.mpr fun member => ?_, List.count_eq_zero.mpr fun member => ?_]
  · have injective : Function.Injective fun event : SpikeEvent =>
        Violation.repeatedEvent (path ++ [.field "indices"]) event.index event.time := by
      rintro ⟨time, index⟩ ⟨otherTime, otherIndex⟩ same
      cases same
      rfl
    rw [Nat.zero_add]
    exact List.count_map_of_injective _ _ injective event
  · obtain ⟨_, ⟨position, rfl⟩, _, _, _, _, impossible⟩ := times.exists_of_mem member
    cases impossible
  · obtain ⟨_, ⟨position, rfl⟩, _, _, _, impossible⟩ := indices.exists_of_mem member
    cases impossible

end SpikeSourceParams

end Neurochip
