import Mathlib.Order.Monotone.Basic
import Neurochip.Proofs.Failure.Partition
import Neurochip.Proofs.Failure.Rounding

namespace Neurochip

/-!
# The ranges of the workers

The items are cut into one range for each worker.  The main statements say that
the ranges follow each other from the first item to the last, that the longer
ones come first and are longer by one item, and that words of 64 bits are large
enough for all that is computed to find them.
-/

/-- A natural number that has to be an unsigned word of 64 bits. -/
def Guard.unsigned (value : Nat) : Except Failure Nat :=
  if RoundingMode.unsigned64.Contains value then .ok value else .error .overflow

theorem Guard.unsigned_of_lt {value : Nat} (small : value < 18446744073709551616) :
    unsigned value = .ok value := by
  refine if_pos ?_
  show 0 ≤ (value : Int) ∧ (value : Int) ≤ 18446744073709551615
  omega

namespace Partition

/-- The start and the end of one worker's range, computed in unsigned words of 64 bits. -/
def rangeInWords (workers worker items : Nat) : Except Failure (Nat × Nat) := do
  let size ← Guard.dividedNat (· / ·) items workers
  let longer ← Guard.dividedNat (· % ·) items workers
  if worker < longer then
    let longSize ← Guard.unsigned (size + 1)
    let first ← Guard.unsigned (longSize * worker)
    let stop ← Guard.unsigned (first + longSize)
    return (first, stop)
  else
    let longSize ← Guard.unsigned (size + 1)
    let long ← Guard.unsigned (longSize * longer)
    let short ← Guard.unsigned (size * (worker - longer))
    let first ← Guard.unsigned (long + short)
    let stop ← Guard.unsigned (first + size)
    return (first, stop)

/-- The number of items in one worker's range. -/
def size (workers worker items : Nat) : Nat :=
  (range workers worker items).2 - (range workers worker items).1

variable {workers worker other items position : Nat}

theorem start_zero (workers items : Nat) : start workers 0 items = 0 := by
  simp [start]

theorem start_le_start (ordered : worker ≤ other) :
    start workers worker items ≤ start workers other items :=
  monotone_nat_of_le_succ (fun worker => start_le_start_succ workers worker items) ordered

/-- A position is in the range of one worker only. -/
theorem worker_eq_of_inside
    (inside : start workers worker items ≤ position ∧
      position < start workers (worker + 1) items)
    (otherInside : start workers other items ≤ position ∧
      position < start workers (other + 1) items) :
    worker = other := by
  rcases Nat.lt_trichotomy worker other with before | same | after
  · have : start workers (worker + 1) items ≤ start workers other items := start_le_start before
    omega
  · exact same
  · have : start workers (other + 1) items ≤ start workers worker items := start_le_start after
    omega

/-- What is before the range of some worker is in the range of a worker before that one. -/
theorem exists_worker_inside
    {count : Nat}
    (before : position < start workers count items) :
    ∃ worker < count,
      start workers worker items ≤ position ∧ position < start workers (worker + 1) items := by
  induction count with
  | zero =>
      rw [start_zero] at before
      omega
  | succ count inductionHypothesis =>
      rcases Nat.lt_or_ge position (start workers count items) with earlier | here
      · obtain ⟨worker, early, inside⟩ := inductionHypothesis earlier
        exact ⟨worker, by omega, inside⟩
      · exact ⟨count, by omega, here, before⟩

/-- Workers have an equal part of the items, and the first ones have an item of the remainder. -/
theorem size_eq (workers worker items : Nat) :
    size workers worker items =
      items / workers + if worker < items % workers then 1 else 0 := by
  unfold size range start
  rw [Nat.mul_succ]
  generalize items / workers * worker = before
  generalize items / workers = equal
  generalize items % workers = longer
  split <;> omega

/-- No word is too small for what is computed, as long as the number after that of the items is
a word. -/
theorem rangeInWords_eq
    (present : worker < workers)
    (small : items + 1 < 18446744073709551616) :
    rangeInWords workers worker items = .ok (range workers worker items) := by
  have positive : 0 < workers := by omega
  have ends : (range workers worker items).2 ≤ items := start_le items present
  have quotient : items / workers ≤ items := Nat.div_le_self items workers
  have computed := rangeGuarded_eq positive worker items
  unfold rangeGuarded at computed
  unfold rangeInWords
  rw [bind_of_eq_ok (Guard.dividedNat_of_pos positive),
    bind_of_eq_ok (Guard.dividedNat_of_pos positive)] at computed ⊢
  generalize items / workers = size at computed quotient ⊢
  generalize items % workers = longer at computed ⊢
  have longSize : Guard.unsigned (size + 1) = .ok (size + 1) :=
    Guard.unsigned_of_lt (by omega)
  -- Everything on the way to the end of the range is at most that end.
  split at computed
  · rename_i early
    obtain same := Except.ok.inj computed
    rw [← same] at ends ⊢
    dsimp only at ends
    rw [if_pos early, bind_of_eq_ok longSize, bind_of_eq_ok (Guard.unsigned_of_lt (by omega)),
      bind_of_eq_ok (Guard.unsigned_of_lt (by omega))]
    rfl
  · rename_i late
    obtain same := Except.ok.inj computed
    rw [← same] at ends ⊢
    dsimp only at ends
    rw [if_neg late, bind_of_eq_ok longSize, bind_of_eq_ok (Guard.unsigned_of_lt (by omega)),
      bind_of_eq_ok (Guard.unsigned_of_lt (by omega)),
      bind_of_eq_ok (Guard.unsigned_of_lt (by omega)),
      bind_of_eq_ok (Guard.unsigned_of_lt (by omega))]
    rfl

/-- What the ranges of some workers have to be for all items to be dealt out evenly. -/
structure Tiles (workers items : Nat) : Prop where
  first : (range workers 0 items).1 = 0
  consecutive : ∀ worker, (range workers worker items).2 = (range workers (worker + 1) items).1
  last : (range workers (workers - 1) items).2 = items
  ordered : ∀ worker, (range workers worker items).1 ≤ (range workers worker items).2
  longerFirst : ∀ earlier later, earlier ≤ later →
    size workers later items ≤ size workers earlier items ∧
      size workers earlier items ≤ size workers later items + 1
  /-- The case split on the remainder finds the ranges, in numbers of any size. -/
  computed : ∀ worker, rangeGuarded workers worker items = .ok (range workers worker items)
  inWords : items + 1 < 18446744073709551616 → ∀ worker < workers,
    rangeInWords workers worker items = .ok (range workers worker items)

theorem tiles (positive : 0 < workers) (items : Nat) : Tiles workers items where
  first := start_zero workers items
  consecutive := fun _ => rfl
  last := by
    show start workers (workers - 1 + 1) items = items
    rw [Nat.sub_add_cancel positive, start_workers items positive]
  ordered := fun worker => start_le_start_succ workers worker items
  longerFirst := by
    intro earlier later ordered
    rw [size_eq, size_eq]
    split <;> split <;> omega
  computed := fun worker => rangeGuarded_eq positive worker items
  inWords := fun small _ present => rangeInWords_eq present small

end Partition

end Neurochip
