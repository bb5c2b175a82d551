import Neurochip.Proofs.DelayLine.Upcoming

namespace Neurochip.DelayLine

/-!
# When items leave a delay line

Calls to a delay line either schedule an item some steps ahead or drain the
batch of the current step.  So the history of the calls alone says which drain an
item is due in: that which comes after as many more drains as its distance.  The
main statement says that each drain answers exactly the items that are due in it,
in the order of their calls, and that what is on the way is what has been
scheduled and not yet been drained.
-/

/-- A call to a delay line. -/
inductive Call (α : Type) where
  | schedule (offset : Nat) (item : α)
  | drain
  deriving Repr, DecidableEq

namespace Call

/-- Whether a call drains a batch. -/
def isDrain : Call α → Bool
  | schedule _ _ => false
  | drain => true

/-- The item that a call schedules. -/
def item? : Call α → Option α
  | schedule _ item => some item
  | drain => none

/-- The item of a call, if it is due in the drain with a number, which the given number of drains
have come before the call. -/
def dueIn? (number elapsed : Nat) : Call α → Option α
  | schedule offset item => if elapsed + offset = number then some item else none
  | drain => none

end Call

/-- The number of drains among some calls. -/
def drains (calls : List (Call α)) : Nat :=
  calls.countP Call.isDrain

/-- The items that are due in the drain with a number, counted from zero, in the order of the calls
that schedule them. -/
def dueIn (calls : List (Call α)) (number : Nat) : List α :=
  calls.zipIdx.filterMap fun (call, position) =>
    call.dueIn? number (drains (calls.take position))

/-- The batches that some calls drain, and the line after them, if everything is scheduled within
reach. -/
def run? (line : DelayLine α) : List (Call α) → Option (List (List α) × DelayLine α)
  | [] => some ([], line)
  | .schedule offset item :: rest => do
      let line ← line.schedule? offset [item]
      line.run? rest
  | .drain :: rest => do
      let (batches, last) ← line.drain.2.run? rest
      return (line.drain.1 :: batches, last)

/-- All items are scheduled within a reach. -/
def WithinReach (reach : Nat) (calls : List (Call α)) : Prop :=
  ∀ offset item, Call.schedule offset item ∈ calls → offset ≤ reach

variable {α : Type} {reach : Nat}

theorem WithinReach.tail
    {call : Call α}
    {rest : List (Call α)}
    (within : WithinReach reach (call :: rest)) :
    WithinReach reach rest :=
  fun offset item member => within offset item (List.mem_cons_of_mem _ member)

/-- What is due after a call: its own item, and the items of the calls after it. -/
theorem dueIn_cons (call : Call α) (rest : List (Call α)) (number : Nat) :
    dueIn (call :: rest) number =
      (call.dueIn? number 0).toList ++
        rest.zipIdx.filterMap fun (later, position) =>
          later.dueIn? number (drains [call] + drains (rest.take position)) := by
  have shifted : (call :: rest).zipIdx =
      (call, 0) :: rest.zipIdx.map fun entry => (entry.1, entry.2 + 1) := by
    rw [List.zipIdx_cons, List.zipIdx_succ]
  have counted : ∀ position,
      drains ((call :: rest).take (position + 1)) =
        drains [call] + drains (rest.take position) := by
    intro position
    show drains ([call] ++ rest.take position) = _
    exact List.countP_append
  have first : drains ((call :: rest).take 0) = 0 := rfl
  rw [dueIn, shifted, List.filterMap_cons, List.filterMap_map]
  simp only [Function.comp_def, counted, first]
  cases call.dueIn? number 0 with
  | none => rfl
  | some item => rfl

/-- An item is due in the drain whose number is its distance. -/
theorem dueIn_schedule
    (offset : Nat)
    (item : α)
    (rest : List (Call α))
    (number : Nat) :
    dueIn (.schedule offset item :: rest) number =
      (if number = offset then [item] else []) ++ dueIn rest number := by
  have noDrain : drains [Call.schedule offset item] = 0 := rfl
  rw [dueIn_cons, noDrain]
  simp only [Nat.zero_add, Call.dueIn?, eq_comm (a := offset)]
  split <;> rfl

/-- Nothing that is scheduled after a drain is due in it. -/
theorem dueIn_drain_zero (rest : List (Call α)) : dueIn (.drain :: rest) 0 = [] := by
  have oneDrain : drains [Call.drain (α := α)] = 1 := rfl
  rw [dueIn_cons, oneDrain]
  refine List.filterMap_eq_nil_iff.mpr ?_
  rintro ⟨call, position⟩ -
  cases call with
  | schedule offset item =>
      simp only [Call.dueIn?]
      rw [if_neg (by omega)]
  | drain => rfl

/-- After a drain every item is due one drain later. -/
theorem dueIn_drain_succ (rest : List (Call α)) (number : Nat) :
    dueIn (.drain :: rest) (number + 1) = dueIn rest number := by
  have oneDrain : drains [Call.drain (α := α)] = 1 := rfl
  rw [dueIn_cons, oneDrain]
  refine List.filterMap_congr ?_
  rintro ⟨call, position⟩ -
  cases call with
  | schedule offset item =>
      have same : 1 + drains (rest.take position) + offset = number + 1 ↔
          drains (rest.take position) + offset = number := by omega
      simp only [Call.dueIn?, same]
  | drain => rfl

/-- A drain comes before the drains of the calls after it. -/
theorem map_range_drains
    (batch : Nat → β)
    (rest : List (Call α)) :
    (List.range (drains (.drain :: rest))).map batch =
      batch 0 :: (List.range (drains rest)).map fun number => batch (number + 1) := by
  have more : drains (Call.drain :: rest) = drains rest + 1 := List.countP_cons_of_pos rfl
  rw [more, List.range_succ_eq_map, List.map_cons, List.map_map]
  rfl

/-- Calls within reach drain what is on the way and what they schedule, each item when it is due, and
the items that come onto the line and leave it account for those on the way. -/
theorem exists_run?_eq
    {line : DelayLine α}
    (reaches : line.length = reach + 1)
    {calls : List (Call α)}
    (within : WithinReach reach calls) :
    ∃ batches last,
      line.run? calls = some (batches, last) ∧
      batches = ((List.range (drains calls)).map fun number =>
        line.upcoming.getD number [] ++ dueIn calls number) ∧
      last.pending + tally List.length batches =
        line.pending + (calls.filterMap Call.item?).length := by
  induction calls generalizing line with
  | nil => exact ⟨[], line, rfl, rfl, rfl⟩
  | cons call rest inductionHypothesis =>
      cases call with
      | schedule offset item =>
          have reached : offset < line.length := by
            have := within offset item List.mem_cons_self
            omega
          obtain ⟨batches, last, ran, answered, accounted⟩ :=
            @inductionHypothesis (line.schedule offset [item])
              (by rw [length_schedule, reaches]) within.tail
          refine ⟨batches, last, ?_, ?_, ?_⟩
          · rw [run?, schedule?, if_pos reached]
            exact ran
          · rw [answered]
            refine List.map_congr_left fun number _ => ?_
            rw [getD_upcoming_schedule line [item] reached, dueIn_schedule, List.append_assoc]
          · rw [accounted, pending_schedule]
            simp only [List.filterMap_cons, Call.item?, List.length_cons, List.length_nil]
            omega
      | drain =>
          obtain ⟨batches, last, ran, answered, accounted⟩ :=
            @inductionHypothesis line.drain.2 (by rw [length_drain, reaches]) within.tail
          have emptied := line.pending_drain
          refine ⟨line.drain.1 :: batches, last, ?_, ?_, ?_⟩
          · rw [run?, ran]
            rfl
          · rw [answered, map_range_drains, dueIn_drain_zero, List.append_nil, drain_fst_eq]
            simp only [dueIn_drain_succ, getD_upcoming_drain]
          · rw [tally_cons]
            simp only [List.filterMap_cons, Call.item?]
            omega

/-- On a line that starts empty, calls within reach never fail.  Each drain answers the items that
are due in it, those whose distance is the number of drains between their call and this one, in the
order of their calls.  After the calls, and so after those of any prefix, the items on the way are
those scheduled less those drained. -/
theorem drains_answer_what_is_due
    {calls : List (Call α)}
    (within : WithinReach reach calls) :
    ∃ batches last,
      (empty reach).run? calls = some (batches, last) ∧
      batches.length = drains calls ∧
      (∀ number, number < drains calls → batches[number]? = some (dueIn calls number)) ∧
      last.pending + tally List.length batches = (calls.filterMap Call.item?).length := by
  have nothing : (empty reach : DelayLine α).pending = 0 := by
    rw [pending_eq_tally_upcoming, upcoming_empty, tally_eq_zero_iff]
    intro batch member
    rw [List.eq_of_mem_replicate member, List.length_nil]
  have noBatch : ∀ number, (empty reach : DelayLine α).upcoming.getD number [] = [] := by
    intro number
    rw [upcoming_empty, List.getD_eq_getElem?_getD, List.getElem?_replicate]
    split <;> rfl
  obtain ⟨batches, last, ran, rfl, accounted⟩ :=
    exists_run?_eq (length_empty reach) within
  simp only [noBatch, List.nil_append, nothing, Nat.zero_add] at ran accounted ⊢
  refine ⟨_, last, ran, by simp, fun number inside => ?_, accounted⟩
  rw [List.getElem?_map, List.getElem?_range inside, Option.map_some]

/-- Three items that are scheduled at different times and distances, on a line that reaches two steps
ahead, are drained together in the order of their calls. -/
theorem drains_answer_what_is_due_together :
    WithinReach 2
      [Call.schedule 2 7, .schedule 0 5, .drain, .schedule 1 9, .drain, .schedule 0 4, .drain] ∧
    ∃ batches last,
      (empty 2).run?
        [Call.schedule 2 7, .schedule 0 5, .drain, .schedule 1 9, .drain, .schedule 0 4,
          .drain] = some (batches, last) ∧
      batches[0]? = some [5] ∧
      batches[1]? = some [] ∧
      batches[2]? = some [7, 9, 4] ∧
      last.pending + tally List.length batches = 4 := by
  have within : WithinReach 2
      [Call.schedule 2 7, .schedule 0 5, .drain, .schedule 1 9, .drain, .schedule 0 4,
        .drain] := by
    intro offset item member
    simp at member
    omega
  obtain ⟨batches, last, ran, -, answered, accounted⟩ := drains_answer_what_is_due within
  exact ⟨within, batches, last, ran, answered 0 (by decide), answered 1 (by decide),
    answered 2 (by decide), accounted⟩

end Neurochip.DelayLine
