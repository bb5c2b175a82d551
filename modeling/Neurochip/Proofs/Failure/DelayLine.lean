import Neurochip.DelayLine
import Neurochip.Proofs.Failure.Guarded

namespace Neurochip.DelayLine

/-!
# Delay lines do not fail

The position of every batch is one of the ring, so items can be scheduled within
reach, and there is always a batch to drain.
-/

variable {α : Type}

/-- Adds an item to the batch that is the given number of steps away, which has to be within
reach. -/
def scheduleGuarded (line : DelayLine α) (offset : Nat) (item : α) :
    Except Failure (DelayLine α) := do
  if offset < line.length then
    let position ← Guard.dividedNat (· % ·) (line.current + offset) line.length
    let batch ← Guard.elementAt line.batches position
    return { line with
      batches := line.batches.setIfInBounds position (batch ++ [item])
      inside := by simpa using line.inside }
  else
    throw .outOfReach

/-- Takes the batch that is due now and moves on by one step. -/
def drainGuarded (line : DelayLine α) : Except Failure (List α × DelayLine α) := do
  let batch ← Guard.elementAt line.batches line.current
  return (batch, line.drain.2)

/-- Delay lines with the same batches at the same place are equal. -/
theorem eq_of_batches
    {line other : DelayLine α}
    (batches : line.batches = other.batches)
    (current : line.current = other.current) :
    line = other := by
  cases line
  cases other
  simp_all

/-- Scheduling within reach does not fail. -/
theorem scheduleGuarded_eq
    {line : DelayLine α}
    {offset : Nat}
    (within : offset < line.length)
    (item : α) :
    line.scheduleGuarded offset item = .ok (line.schedule offset [item]) := by
  obtain ⟨batch, found⟩ := Guard.exists_element (line.slot_lt_length offset)
  have position : Guard.dividedNat (· % ·) (line.current + offset) line.length =
      .ok (line.slot offset) :=
    Guard.dividedNat_of_pos line.length_pos
  unfold scheduleGuarded
  rw [if_pos within, bind_of_eq_ok position, bind_of_eq_ok (Guard.elementAt_of_some found)]
  exact congrArg Except.ok (eq_of_batches (Guard.setIfInBounds_eq_modify found (· ++ [item])) rfl)

theorem schedule_nil (line : DelayLine α) (offset : Nat) : line.schedule offset [] = line := by
  refine eq_of_batches (Array.ext_getElem? fun position => ?_) rfl
  simp only [schedule, Array.getElem?_modify, List.append_nil]
  split <;> simp

/-- Items are scheduled one after the other. -/
theorem schedule_append
    (line : DelayLine α)
    (offset : Nat)
    (first second : List α) :
    line.schedule offset (first ++ second) =
      (line.schedule offset first).schedule offset second := by
  have sameSlot : (line.schedule offset first).slot offset = line.slot offset := by
    rw [slot, length_schedule]
    rfl
  have batches : ∀ (line : DelayLine α) (items : List α),
      (line.schedule offset items).batches =
        line.batches.modify (line.slot offset) (· ++ items) := fun _ _ => rfl
  refine eq_of_batches (Array.ext_getElem? fun position => ?_) rfl
  simp only [batches, sameSlot, Array.getElem?_modify]
  split <;> simp [Function.comp_def]

/-- Scheduling several items within reach does not fail. -/
theorem foldlM_scheduleGuarded
    {line : DelayLine α}
    {offset : Nat}
    (within : offset < line.length)
    (items : List α) :
    items.foldlM (fun line item => line.scheduleGuarded offset item) line =
      .ok (line.schedule offset items) := by
  induction items generalizing line with
  | nil => rw [schedule_nil]; rfl
  | cons item rest inductionHypothesis =>
      rw [List.foldlM_cons, bind_of_eq_ok (scheduleGuarded_eq within item),
        inductionHypothesis (by rwa [length_schedule]), ← schedule_append]
      rfl

/-- There is always a batch to drain. -/
theorem drainGuarded_eq (line : DelayLine α) : line.drainGuarded = .ok line.drain := by
  have found := Array.getElem?_eq_getElem line.inside
  unfold drainGuarded
  rw [bind_of_eq_ok (Guard.elementAt_of_some found)]
  rfl

end Neurochip.DelayLine
