import Mathlib.Data.List.Rotate
import Mathlib.Data.Nat.ModEq
import Neurochip.DelayLine
import Neurochip.Proofs.Tally.Sums

namespace Neurochip

/-!
# What a delay line holds, by distance

Seen from its current position, a ring of batches is a list: the batch for the
current step first, the farthest one last.  In this view scheduling changes one
place and draining shifts the list by one, wherever the ring is entered.
-/

namespace DelayLine

/-- The batches in order of distance, starting with that of the current step. -/
def upcoming (line : DelayLine α) : List (List α) :=
  line.batches.toList.rotate line.current

@[simp] theorem length_upcoming (line : DelayLine α) :
    line.upcoming.length = line.length := by
  simp [upcoming, length]

/-- The batch at a distance within reach is the one in its slot. -/
theorem getElem?_upcoming
    (line : DelayLine α)
    {offset : Nat}
    (reached : offset < line.length) :
    line.upcoming[offset]? = line.batches[line.slot offset]? := by
  have inside : offset < line.batches.toList.length := by
    simpa [length] using reached
  rw [upcoming, List.getElem?_rotate inside, Array.getElem?_toList, slot, Nat.add_comm]
  rfl

/-- Different distances within reach lead to different slots. -/
theorem slot_inj
    (line : DelayLine α)
    {first second : Nat}
    (firstReached : first < line.length)
    (secondReached : second < line.length) :
    line.slot first = line.slot second ↔ first = second := by
  constructor
  · intro same
    have congruent : Nat.ModEq line.length first second :=
      Nat.ModEq.add_left_cancel' line.current same
    exact Nat.ModEq.eq_of_lt_of_lt congruent firstReached secondReached
  · rintro rfl
    rfl

/-- Seen from the next position, every slot is one step closer. -/
theorem next_add_mod (line : DelayLine α) (offset : Nat) :
    (line.next + offset) % line.length = line.slot (offset + 1) := by
  unfold next slot
  split
  · rename_i wraps
    have shifted : line.current + (offset + 1) = offset + line.length := by omega
    rw [shifted, Nat.add_mod_right, Nat.zero_add]
  · rw [Nat.add_assoc, Nat.add_comm 1 offset]

@[simp] theorem upcoming_empty (reach : Nat) :
    (empty reach : DelayLine α).upcoming = List.replicate (reach + 1) [] := by
  simp [upcoming, empty]

/-- Scheduling within reach adds to the batch at that distance. -/
theorem upcoming_schedule
    (line : DelayLine α)
    {offset : Nat}
    (items : List α)
    (reached : offset < line.length) :
    (line.schedule offset items).upcoming = line.upcoming.modify offset (· ++ items) := by
  apply List.ext_getElem?
  intro distance
  by_cases within : distance < line.length
  · have slotKept : (line.schedule offset items).slot distance = line.slot distance := by
      simp [slot, schedule, length]
    rw [getElem?_upcoming _ (by simpa using within), slotKept, List.getElem?_modify,
      getElem?_upcoming _ within, schedule, Array.getElem?_modify]
    simp only [slot_inj line reached within]
    split <;> simp
  · rw [List.getElem?_eq_none (by simpa using within),
      List.getElem?_eq_none (by simpa using within)]

/-- The batch that draining answers is the one for the current step. -/
theorem getElem?_zero_upcoming (line : DelayLine α) :
    line.upcoming[0]? = some line.drain.1 := by
  have inside := line.inside
  rw [getElem?_upcoming line line.length_pos]
  have here : line.slot 0 = line.current := Nat.mod_eq_of_lt line.inside
  simp [here, drain]

/-- What draining answers is the batch that is no step away. -/
theorem drain_fst_eq (line : DelayLine α) : line.drain.1 = line.upcoming.getD 0 [] := by
  rw [List.getD_eq_getElem?_getD, getElem?_zero_upcoming, Option.getD_some]

/-- Draining moves every later batch one step closer and leaves nothing at the far end. -/
theorem upcoming_drain (line : DelayLine α) :
    line.drain.2.upcoming = line.upcoming.tail ++ [[]] := by
  have positive := line.length_pos
  have here : line.slot 0 = line.current := Nat.mod_eq_of_lt line.inside
  apply List.ext_getElem?
  intro distance
  by_cases within : distance < line.length
  · have slotCloser : line.drain.2.slot distance = line.slot (distance + 1) := by
      rw [← next_add_mod]
      simp [slot, drain, length]
    rw [getElem?_upcoming _ (by simpa using within), slotCloser]
    -- The farthest batch is the one that has just been drained.
    by_cases last : distance + 1 = line.length
    · have wrapped : line.slot (distance + 1) = line.current := by
        rw [last, slot, Nat.add_mod_right]
        exact Nat.mod_eq_of_lt line.inside
      have farthest : line.upcoming.tail.length = distance := by
        simp
        omega
      rw [wrapped, List.getElem?_append_right (by omega), farthest, Nat.sub_self]
      simp [drain, line.inside]
    · have closer : distance + 1 < line.length := by omega
      have elsewhere : line.current ≠ line.slot (distance + 1) := by
        rw [← here]
        intro same
        exact absurd ((slot_inj line positive closer).mp same) (by omega)
      rw [List.getElem?_append_left (by simp; omega), List.getElem?_tail,
        getElem?_upcoming _ closer]
      simp [drain, elsewhere]
  · have outside : (line.upcoming.tail ++ [[]]).length ≤ distance := by
      simp
      omega
    rw [List.getElem?_eq_none (by simpa using within), List.getElem?_eq_none outside]

/-- Scheduling within reach adds to one batch. -/
theorem getD_upcoming_schedule
    (line : DelayLine α)
    {offset : Nat}
    (items : List α)
    (reached : offset < line.length)
    (distance : Nat) :
    (line.schedule offset items).upcoming.getD distance [] =
      line.upcoming.getD distance [] ++ if distance = offset then items else [] := by
  rw [upcoming_schedule line items reached, List.getD_eq_getElem?_getD,
    List.getD_eq_getElem?_getD, List.getElem?_modify]
  by_cases same : distance = offset
  · subst same
    have inside : distance < line.upcoming.length := by rwa [length_upcoming]
    simp [List.getElem?_eq_getElem inside]
  · simp [same, Ne.symm same]

/-- After draining, every batch is one step closer. -/
theorem getD_upcoming_drain (line : DelayLine α) (distance : Nat) :
    line.drain.2.upcoming.getD distance [] = line.upcoming.getD (distance + 1) [] := by
  rw [upcoming_drain, List.getD_eq_getElem?_getD, List.getD_eq_getElem?_getD,
    ← List.getElem?_tail]
  rcases Nat.lt_trichotomy distance line.upcoming.tail.length with within | last | beyond
  · rw [List.getElem?_append_left within]
  · simp [last]
  · have outside : (line.upcoming.tail ++ [[]]).length ≤ distance := by
      rw [List.length_append, List.length_singleton]
      exact beyond
    rw [List.getElem?_eq_none outside, List.getElem?_eq_none (Nat.le_of_lt beyond)]

/-- Where nothing is as far away as the line reaches, what is scheduled there is what is there. -/
theorem upcoming_schedule_last
    {line : DelayLine α}
    {reach : Nat}
    (sameLength : line.length = reach + 1)
    {batches : List (List α)}
    (before : line.upcoming = batches ++ [[]])
    (items : List α) :
    (line.schedule reach items).upcoming = batches ++ [items] := by
  have farthest : batches.length = reach := by
    have lengths := congrArg List.length before
    rw [length_upcoming, sameLength, List.length_append, List.length_singleton] at lengths
    omega
  rw [upcoming_schedule line items (by omega), before, ← farthest]
  simp [List.modify_eq_take_cons_drop]

/-- Draining answers the first batch, and moves the others one step closer. -/
theorem drain_of_upcoming
    {line : DelayLine α}
    {first : List α}
    {others : List (List α)}
    (before : line.upcoming = first :: others) :
    line.drain.1 = first ∧ line.drain.2.upcoming = others ++ [[]] := by
  constructor
  · have due := line.getElem?_zero_upcoming
    rw [before] at due
    exact (Option.some.inj due).symm
  · rw [upcoming_drain, before, List.tail_cons]

/-- What is on its way in a line does not depend on where its ring is entered, nor does what becomes
of it. -/
theorem drain_schedule_of_upcoming_eq
    {first second : DelayLine α}
    (same : first.upcoming = second.upcoming)
    {offset : Nat}
    (reached : offset < first.length)
    (items : List α) :
    (first.schedule offset items).drain.1 = (second.schedule offset items).drain.1 ∧
      (first.schedule offset items).drain.2.upcoming =
        (second.schedule offset items).drain.2.upcoming := by
  have sameLength : first.length = second.length := by
    rw [← length_upcoming, same, length_upcoming]
  have scheduled : (first.schedule offset items).upcoming =
      (second.schedule offset items).upcoming := by
    rw [upcoming_schedule first items reached, same,
      upcoming_schedule second items (sameLength ▸ reached)]
  have due := (first.schedule offset items).getElem?_zero_upcoming
  rw [scheduled, getElem?_zero_upcoming] at due
  refine ⟨(Option.some.inj due).symm, ?_⟩
  rw [upcoming_drain, upcoming_drain, scheduled]

/-- The items on the way are those of all batches. -/
theorem pending_eq_tally_upcoming (line : DelayLine α) :
    line.pending = tally List.length line.upcoming :=
  tally_perm _ (List.rotate_perm _ _).symm

/-- Where nothing is on its way, all batches are empty. -/
theorem upcoming_of_pending_eq_zero
    {line : DelayLine α}
    (idle : line.pending = 0) :
    line.upcoming = List.replicate line.length [] := by
  rw [pending_eq_tally_upcoming, tally_eq_zero_iff] at idle
  refine List.eq_replicate_iff.mpr ⟨length_upcoming line, fun batch member => ?_⟩
  exact List.length_eq_zero_iff.mp (idle batch member)

end DelayLine

end Neurochip
