import Neurochip.Capacity
import Neurochip.Tally

namespace Neurochip

/-!
# Delay lines

Spikes travel for a fixed number of steps.  A delay line is a ring of batches:
the current one holds the items for the current step, and those after it, in
ring order, hold the items for later steps.  Draining empties the current batch
and moves on to the next one, so that an emptied batch becomes the farthest one.
The lemmas say that neither changes the reach of the line, and that items are
neither lost nor made up on the way.
-/

/-- A ring of batches, and the position of the batch for the current step. -/
structure DelayLine (α : Type) where
  batches : Array (List α)
  current : Nat
  inside : current < batches.size
  deriving Repr, DecidableEq

namespace DelayLine

/-- An empty line that reaches the given number of steps ahead. -/
def empty (reach : Nat) : DelayLine α :=
  { batches := Array.replicate (reach + 1) []
    current := 0
    inside := by simp }

/-- The number of batches, that of the current step included. -/
def length (line : DelayLine α) : Nat :=
  line.batches.size

/-- An empty line, if there is room for its batches. -/
def empty? (reach : Nat) : Option (DelayLine α) :=
  (Capacity.roomFor? reach).map empty

/-- The position of the batch that is the given number of steps away. -/
def slot (line : DelayLine α) (offset : Nat) : Nat :=
  (line.current + offset) % line.length

/-- Adds items to the batch that is the given number of steps away. -/
def schedule (line : DelayLine α) (offset : Nat) (items : List α) : DelayLine α :=
  { batches := line.batches.modify (line.slot offset) (· ++ items)
    current := line.current
    inside := by simpa using line.inside }

/-- Adds items to the batch that is the given number of steps away, if it is within reach. -/
def schedule? (line : DelayLine α) (offset : Nat) (items : List α) : Option (DelayLine α) :=
  if offset < line.length then some (line.schedule offset items) else none

/-- The position after the current one in the ring. -/
def next (line : DelayLine α) : Nat :=
  if line.current + 1 = line.length then 0 else line.current + 1

/-- The position after the current one is one of the ring. -/
theorem next_lt_length (line : DelayLine α) : line.next < line.length := by
  have inside : line.current < line.length := line.inside
  unfold next
  split <;> omega

/-- Takes the batch that is due now and moves on by one step. -/
def drain (line : DelayLine α) : List α × DelayLine α :=
  have inside := line.inside
  (line.batches[line.current],
    { batches := line.batches.set line.current []
      current := line.next
      inside := by simpa [length] using line.next_lt_length })

/-- The number of items on the way. -/
def pending (line : DelayLine α) : Nat :=
  tally List.length line.batches.toList

/-- There is a batch for the current step. -/
theorem length_pos (line : DelayLine α) : 0 < line.length :=
  Nat.zero_lt_of_lt line.inside

/-- An empty line has a batch for every step within its reach. -/
@[simp] theorem length_empty (reach : Nat) :
    (empty reach : DelayLine α).length = reach + 1 := by
  simp [empty, length]

/-- Every distance leads to a position of the ring. -/
theorem slot_lt_length (line : DelayLine α) (offset : Nat) :
    line.slot offset < line.length :=
  Nat.mod_lt _ line.length_pos

/-- Scheduling does not change the reach. -/
@[simp] theorem length_schedule (line : DelayLine α) (offset : Nat) (items : List α) :
    (line.schedule offset items).length = line.length := by
  simp [schedule, length]

/-- Draining does not change the reach. -/
@[simp] theorem length_drain (line : DelayLine α) :
    line.drain.2.length = line.length := by
  simp [drain, length]

/-- Adding items to one batch adds their number to the number of all items. -/
private theorem tally_modify_append
    (batches : List (List α))
    (position : Nat)
    (items : List α)
    (inside : position < batches.length) :
    tally List.length (batches.modify position (· ++ items)) =
      tally List.length batches + items.length := by
  induction batches generalizing position with
  | nil => simp at inside
  | cons batch rest inductionHypothesis =>
      cases position with
      | zero =>
          simp
          omega
      | succ position =>
          simp only [List.length_cons] at inside
          simp [inductionHypothesis position (by omega)]
          omega

/-- Items that are scheduled are on the way. -/
theorem pending_schedule (line : DelayLine α) (offset : Nat) (items : List α) :
    (line.schedule offset items).pending = line.pending + items.length := by
  have inside : line.slot offset < line.batches.toList.length := by
    simpa [length] using line.slot_lt_length offset
  simp only [pending, schedule, Array.toList_modify]
  exact tally_modify_append _ _ _ inside

/-- Emptying one batch takes its items off the number of all items. -/
private theorem tally_set_nil
    (batches : List (List α))
    (position : Nat)
    (inside : position < batches.length) :
    batches[position].length + tally List.length (batches.set position []) =
      tally List.length batches := by
  induction batches generalizing position with
  | nil => simp at inside
  | cons batch rest inductionHypothesis =>
      cases position with
      | zero => simp
      | succ position =>
          simp only [List.length_cons] at inside
          have others := inductionHypothesis position (by omega)
          simp only [List.getElem_cons_succ, List.set_cons_succ, tally_cons]
          omega

/-- Draining takes exactly the items that it answers off the line. -/
theorem pending_drain (line : DelayLine α) :
    line.drain.1.length + line.drain.2.pending = line.pending := by
  have inside : line.current < line.batches.toList.length := by
    simpa using line.inside
  have emptied := tally_set_nil line.batches.toList line.current inside
  simpa [pending, drain] using emptied

end DelayLine

end Neurochip
