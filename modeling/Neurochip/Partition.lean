namespace Neurochip

/-!
# Dividing work among workers

Items are dealt out to workers in consecutive ranges whose lengths differ by at
most one, the longer ones first.  The main statement says that applying a
function range by range is the same as applying it to the whole list.
-/

namespace Partition

/-- Where the range of a worker starts, which is where that of the worker before it ends. -/
def start (workers worker items : Nat) : Nat :=
  items / workers * worker + min worker (items % workers)

/-- The start and the end, not included, of one worker's range. -/
def range (workers worker items : Nat) : Nat × Nat :=
  (start workers worker items, start workers (worker + 1) items)

/-- The items in one worker's range. -/
def share (workers worker : Nat) (items : List α) : List α :=
  let (first, stop) := range workers worker items.length
  (items.drop first).take (stop - first)

/-- Applies a function to every item, one worker's range after the other. -/
def map (workers : Nat) (apply : α → β) (items : List α) : List β :=
  let workers := min workers items.length
  if workers ≤ 1 then
    items.map apply
  else
    (List.range workers).flatMap fun worker =>
      (share workers worker items).map apply

/-- Ranges do not end before they start. -/
theorem start_le_start_succ (workers worker items : Nat) :
    start workers worker items ≤ start workers (worker + 1) items := by
  unfold start
  rw [Nat.mul_succ]
  generalize items / workers = size
  omega

/-- The last range ends with the last item. -/
theorem start_workers
    {workers : Nat}
    (items : Nat)
    (positive : 0 < workers) :
    start workers workers items = items := by
  unfold start
  have below := Nat.mod_lt items positive
  have whole := Nat.div_add_mod' items workers
  omega

/-- The shares of the first workers are the items before the next worker's range. -/
theorem flatMap_share (workers : Nat) (items : List α) (count : Nat) :
    ((List.range count).flatMap fun worker => share workers worker items) =
      items.take (start workers count items.length) := by
  induction count with
  | zero => simp [start]
  | succ count inductionHypothesis =>
      have ordered := start_le_start_succ workers count items.length
      rw [List.range_succ, List.flatMap_append, inductionHypothesis, List.flatMap_singleton]
      simp only [share, range]
      rw [← List.take_add, Nat.add_sub_cancel' ordered]

/-- Applying a function range by range is applying it to the whole list. -/
@[simp] theorem map_eq_map (workers : Nat) (apply : α → β) (items : List α) :
    map workers apply items = items.map apply := by
  unfold map
  dsimp only
  split
  · rfl
  · rename_i several
    rw [← List.map_flatMap, flatMap_share, start_workers _ (by omega), List.take_length]

end Partition

end Neurochip
