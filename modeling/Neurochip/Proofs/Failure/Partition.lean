import Neurochip.Partition
import Neurochip.Proofs.Failure.Guarded

namespace Neurochip.Partition

/-!
# Dividing work does not fail

The ranges of the workers are computed by divisions by their number, and each
worker splits its share off the items that are left.  There is always at least
one worker, and there are always enough items left.
-/

variable {α β : Type}

/-- The start and the end of one worker's range, computed by divisions. -/
def rangeGuarded (workers worker items : Nat) : Except Failure (Nat × Nat) := do
  let size ← Guard.dividedNat (· / ·) items workers
  let longer ← Guard.dividedNat (· % ·) items workers
  if worker < longer then
    return ((size + 1) * worker, (size + 1) * worker + (size + 1))
  else
    return ((size + 1) * longer + size * (worker - longer),
      (size + 1) * longer + size * (worker - longer) + size)

/-- The results and the items that are left, after one more worker has split off its share. -/
def shareGuarded
    (workers items : Nat)
    (apply : α → Except Failure β)
    (progress : List β × List α)
    (worker : Nat) :
    Except Failure (List β × List α) := do
  let (first, stop) ← rangeGuarded workers worker items
  let (share, left) ← Guard.splitAt (stop - first) progress.2
  let results ← share.mapM apply
  return (progress.1 ++ results, left)

/-- Applies a function to every item, one worker's share after the other. -/
def mapGuarded (workers : Nat) (apply : α → Except Failure β) (items : List α) :
    Except Failure (List β) :=
  let workers := min workers items.length
  if workers ≤ 1 then
    items.mapM apply
  else do
    let (results, _) ←
      (List.range workers).foldlM (shareGuarded workers items.length apply) ([], items)
    return results

/-- The divisions give the range of a worker. -/
theorem rangeGuarded_eq
    {workers : Nat}
    (positive : 0 < workers)
    (worker items : Nat) :
    rangeGuarded workers worker items = .ok (range workers worker items) := by
  unfold rangeGuarded range start
  rw [bind_of_eq_ok (Guard.dividedNat_of_pos positive),
    bind_of_eq_ok (Guard.dividedNat_of_pos positive)]
  generalize items / workers = size
  generalize items % workers = longer
  split
  · rename_i early
    refine congrArg Except.ok (Prod.ext ?_ ?_)
    · rw [Nat.add_mul, Nat.one_mul, Nat.min_eq_left (by omega)]
    · rw [Nat.add_mul, Nat.one_mul, Nat.mul_succ, Nat.min_eq_left (by omega)]
      omega
  · rename_i late
    obtain ⟨after, rfl⟩ := Nat.exists_eq_add_of_le (Nat.le_of_not_lt late)
    refine congrArg Except.ok (Prod.ext ?_ ?_)
    · rw [Nat.add_mul, Nat.one_mul, Nat.mul_add, Nat.add_sub_cancel_left,
        Nat.min_eq_right (by omega)]
      omega
    · rw [Nat.add_mul, Nat.one_mul, Nat.mul_succ, Nat.mul_add, Nat.add_sub_cancel_left,
        Nat.min_eq_right (by omega)]
      omega

/-- No range ends after the last item. -/
theorem start_le
    {workers worker : Nat}
    (items : Nat)
    (enough : worker ≤ workers) :
    start workers worker items ≤ items := by
  have whole := Nat.div_add_mod' items workers
  have part := Nat.mul_le_mul_left (items / workers) enough
  unfold start
  omega

/-- A worker applies the function to its share and leaves the items after it. -/
theorem shareGuarded_eq
    {apply : α → Except Failure β}
    {answer : α → β}
    {items : List α}
    (each : ∀ item ∈ items, apply item = .ok (answer item))
    {workers worker : Nat}
    (early : worker < workers)
    (results : List β) :
    shareGuarded workers items.length apply
        (results, items.drop (start workers worker items.length)) worker =
      .ok (results ++ (share workers worker items).map answer,
        items.drop (start workers (worker + 1) items.length)) := by
  have ordered := start_le_start_succ workers worker items.length
  have inside : start workers (worker + 1) items.length ≤ items.length :=
    start_le items.length early
  have enoughLeft : start workers (worker + 1) items.length - start workers worker items.length ≤
      (items.drop (start workers worker items.length)).length := by
    rw [List.length_drop]
    omega
  have shared : (share workers worker items).mapM apply =
      .ok ((share workers worker items).map answer) :=
    mapM_eq_ok_map fun item member =>
      each item (List.mem_of_mem_drop (List.mem_of_mem_take member))
  unfold shareGuarded
  rw [bind_of_eq_ok (rangeGuarded_eq (by omega) worker items.length)]
  simp only [range]
  rw [bind_of_eq_ok (Guard.splitAt_of_le enoughLeft)]
  simp only [List.drop_drop, Nat.add_sub_cancel' ordered]
  simp only [share, range] at shared ⊢
  rw [bind_of_eq_ok shared]
  rfl

/-- The first workers apply the function to the items before the next worker's range. -/
theorem foldlM_shareGuarded
    {apply : α → Except Failure β}
    {answer : α → β}
    {items : List α}
    (each : ∀ item ∈ items, apply item = .ok (answer item))
    {workers count : Nat}
    (enough : count ≤ workers) :
    (List.range count).foldlM (shareGuarded workers items.length apply) ([], items) =
      .ok (((List.range count).flatMap fun worker => share workers worker items).map answer,
        items.drop (start workers count items.length)) := by
  induction count with
  | zero => simp [start, pure, Except.pure]
  | succ count inductionHypothesis =>
      rw [List.range_succ, List.foldlM_append, bind_of_eq_ok (inductionHypothesis (by omega))]
      simp only [List.foldlM_cons, List.foldlM_nil, bind_pure]
      rw [shareGuarded_eq each (by omega), List.flatMap_append, List.flatMap_singleton,
        List.map_append]

/-- Dividing work does not fail where the work does not. -/
theorem mapGuarded_eq
    {workers : Nat}
    {apply : α → Except Failure β}
    {answer : α → β}
    {items : List α}
    (each : ∀ item ∈ items, apply item = .ok (answer item)) :
    mapGuarded workers apply items = .ok (map workers answer items) := by
  rw [map_eq_map]
  unfold mapGuarded
  dsimp only
  split
  · exact mapM_eq_ok_map each
  · rename_i several
    rw [bind_of_eq_ok (foldlM_shareGuarded each (Nat.le_refl _)), flatMap_share,
      start_workers _ (by omega), List.take_length]
    rfl

end Neurochip.Partition
