import Neurochip.SpikeSource

namespace Neurochip

/-!
# What the binary search finds

The window of a search always has the point that is searched: the items up to
its start are before the point, and the items behind it are not.  The main
statement says that, in items which a point divides, the search finds as many
items before it as a scan from the front.  In any items it stays inside them.
-/

variable {before : α → Bool} {items : List α}

/-- The items before a point come first. -/
def Divided (before : α → Bool) (items : List α) : Prop :=
  items.Pairwise fun first second => before second = true → before first = true

/-- In items that a point divides, those before it are the ones a scan passes. -/
theorem Divided.before_iff
    (divided : Divided before items)
    {position : Nat}
    {item : α}
    (place : items[position]? = some item) :
    before item = true ↔ position < (items.takeWhile before).length := by
  induction items generalizing position with
  | nil => cases place
  | cons first rest inductionHypothesis =>
      obtain ⟨ahead, later⟩ := List.pairwise_cons.mp divided
      cases passed : before first with
      | true =>
          rw [List.takeWhile_cons_of_pos passed, List.length_cons]
          cases position with
          | zero =>
              obtain rfl : first = item := Option.some.inj place
              simp [passed]
          | succ position =>
              rw [Nat.succ_lt_succ_iff]
              exact inductionHypothesis later place
      | false =>
          have late : before item ≠ true := by
            intro early
            have firstEarly : before first = true := by
              rcases List.mem_cons.mp (List.mem_of_getElem? place) with rfl | inRest
              · exact early
              · exact ahead item inRest early
            rw [passed] at firstEarly
            cases firstEarly
          simp [passed, late]

/-- A window that is not empty is narrowed to one of its items. -/
theorem narrow_lt
    (before : α → Bool)
    (items : List α)
    (steps start : Nat)
    {size : Nat}
    (positive : 0 < size) :
    narrow before items steps start size < start + size := by
  induction steps generalizing start size with
  | zero => exact Nat.lt_add_of_pos_right positive
  | succ steps inductionHypothesis =>
      rw [narrow]
      split
      · exact Nat.lt_add_of_pos_right positive
      · dsimp only
        have narrowed := fun kept => @inductionHypothesis kept (size - size / 2) (by omega)
        split
        · have := narrowed (start + size / 2)
          omega
        · have := narrowed start
          omega

/-- The search finds no more items than there are. -/
theorem partitionPoint_le_length (before : α → Bool) (items : List α) :
    partitionPoint before items ≤ items.length := by
  unfold partitionPoint
  cases items with
  | nil => simp [narrow]
  | cons first rest =>
      have some : 0 < (first :: rest).length := Nat.succ_pos _
      have inside := narrow_lt before (first :: rest) (first :: rest).length 0 some
      dsimp only
      split <;> omega

/-- Narrowing a window keeps the point in it. -/
theorem Divided.narrow_le
    (divided : Divided before items)
    {steps start size : Nat}
    (enough : size ≤ steps + 1)
    (inside : start + size ≤ items.length)
    (atLeast : start ≤ (items.takeWhile before).length)
    (atMost : (items.takeWhile before).length ≤ start + size) :
    narrow before items steps start size ≤ (items.takeWhile before).length ∧
      (items.takeWhile before).length ≤ narrow before items steps start size + 1 := by
  induction steps generalizing start size with
  | zero => exact ⟨atLeast, by rw [narrow]; omega⟩
  | succ steps inductionHypothesis =>
      rw [narrow]
      split
      · exact ⟨atLeast, by omega⟩
      · dsimp only
        have place : items[start + size / 2]? = some items[start + size / 2] :=
          List.getElem?_eq_getElem (by omega)
        have decided := divided.before_iff place
        rw [place, Option.any_some]
        split
        · have := decided.mp ‹_›
          exact inductionHypothesis (by omega) (by omega) (by omega) (by omega)
        · have := mt decided.mpr ‹_›
          exact inductionHypothesis (by omega) (by omega) (by omega) (by omega)

/-- In items that a point divides, the search finds as many before it as a scan from the front. -/
theorem Divided.partitionPoint_eq (divided : Divided before items) :
    partitionPoint before items = (items.takeWhile before).length := by
  have short := (List.takeWhile_sublist before (l := items)).length_le
  obtain ⟨atLeast, atMost⟩ := divided.narrow_le (Nat.le_succ items.length)
    (Nat.le_of_eq (Nat.zero_add _)) (Nat.zero_le _) (by omega)
  unfold partitionPoint
  dsimp only
  generalize narrow before items items.length 0 items.length = last at atLeast atMost
  cases place : items[last]? with
  | none =>
      have := List.getElem?_eq_none_iff.mp place
      rw [Option.any_none, if_neg (by decide)]
      omega
  | some item =>
      have decided := divided.before_iff place
      rw [Option.any_some]
      split
      · have := decided.mp ‹_›
        omega
      · have := mt decided.mpr ‹_›
        omega

/-- In items that a point divides, the search leaves what a scan from the front leaves. -/
theorem Divided.drop_partitionPoint (divided : Divided before items) :
    items.drop (partitionPoint before items) = items.dropWhile before := by
  rw [divided.partitionPoint_eq]
  calc
    items.drop (items.takeWhile before).length
        = (items.takeWhile before ++ items.dropWhile before).drop
            (items.takeWhile before).length := by rw [List.takeWhile_append_dropWhile]
    _ = items.dropWhile before := List.drop_left

namespace SpikeSource

/-- Events in order of time are divided by every time. -/
theorem divided_events
    {source : SpikeSource}
    (ordered : source.events.Pairwise fun first second => first.time ≤ second.time)
    (now : Nat) :
    Divided (·.time < now) source.events :=
  ordered.imp fun earlier late => by
    simp only [decide_eq_true_eq] at late ⊢
    omega

/-- A source whose events are in order finds what is due as a scan from the front does. -/
theorem dueAt_eq_scan
    {source : SpikeSource}
    (ordered : source.events.Pairwise fun first second => first.time ≤ second.time)
    (time : Nat) :
    source.dueAt time =
      ((source.events.dropWhile (·.time < source.localTime time)).takeWhile
        (·.time == source.localTime time)).map (·.index) := by
  unfold dueAt
  dsimp only
  rw [(divided_events ordered _).drop_partitionPoint]

end SpikeSource

end Neurochip
