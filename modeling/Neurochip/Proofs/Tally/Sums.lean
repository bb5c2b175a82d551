import Neurochip.Tally

namespace Neurochip

/-!
# Tallies over lists that are put together

A tally does not depend on the order of the elements, adds up over the parts of a
list, and can be taken group by group.
-/

@[simp] theorem tally_append (count : α → Nat) (first second : List α) :
    tally count (first ++ second) = tally count first + tally count second := by
  induction first with
  | nil => simp
  | cons item rest inductionHypothesis =>
      rw [List.cons_append, tally_cons, tally_cons, inductionHypothesis, Nat.add_assoc]

/-- The order of the elements does not change a tally. -/
theorem tally_perm
    (count : α → Nat)
    {first second : List α}
    (same : first.Perm second) :
    tally count first = tally count second := by
  induction same with
  | nil => rfl
  | cons item _ inductionHypothesis =>
      rw [tally_cons, tally_cons, inductionHypothesis]
  | swap item other rest =>
      simp only [tally_cons]
      omega
  | trans _ _ firstSame secondSame => exact firstSame.trans secondSame

theorem tally_map (count : β → Nat) (change : α → β) (items : List α) :
    tally count (items.map change) = tally (fun item => count (change item)) items := by
  simp [tally, List.foldl_map]

/-- Equal numbers for all elements have equal tallies. -/
theorem tally_congr
    {first second : α → Nat}
    {items : List α}
    (same : ∀ item ∈ items, first item = second item) :
    tally first items = tally second items := by
  induction items with
  | nil => rfl
  | cons item rest inductionHypothesis =>
      rw [tally_cons, tally_cons, same item List.mem_cons_self,
        inductionHypothesis fun other member => same other (List.mem_cons_of_mem _ member)]

/-- Numbers that are not larger do not make a larger tally. -/
theorem tally_le_tally
    {low high : α → Nat}
    {items : List α}
    (ordered : ∀ item ∈ items, low item ≤ high item) :
    tally low items ≤ tally high items := by
  induction items with
  | nil => exact Nat.le_refl 0
  | cons item rest inductionHypothesis =>
      obtain ⟨here, later⟩ := List.forall_mem_cons.mp ordered
      rw [tally_cons, tally_cons]
      exact Nat.add_le_add here (inductionHypothesis later)

/-- One smaller number among numbers that are not larger makes a smaller tally. -/
theorem tally_lt_tally
    {low high : α → Nat}
    {items : List α}
    (ordered : ∀ item ∈ items, low item ≤ high item)
    {item : α}
    (member : item ∈ items)
    (smaller : low item < high item) :
    tally low items < tally high items := by
  obtain ⟨before, after, rfl⟩ := List.append_of_mem member
  have first := tally_le_tally fun other inside => ordered other (List.mem_append_left _ inside)
  have rest := tally_le_tally fun other inside =>
    ordered other (List.mem_append_right _ (List.mem_cons_of_mem _ inside))
  rw [tally_append, tally_append, tally_cons, tally_cons]
  omega

/-- A tally over the elements is one over their pairs with what they become. -/
theorem tally_zip_map
    {count : α → Nat}
    {pairCount : α × β → Nat}
    {change : α → β}
    {items : List α}
    (same : ∀ item ∈ items, count item = pairCount (item, change item)) :
    tally count items = tally pairCount (items.zip (items.map change)) := by
  rw [tally_congr same, ← List.map_prod_left_eq_zip, tally_map]

/-- The elements of a flattened list are counted part by part. -/
theorem length_flatMap_eq_tally (parts : α → List β) (items : List α) :
    (items.flatMap parts).length = tally (fun item => (parts item).length) items := by
  induction items with
  | nil => rfl
  | cons item rest inductionHypothesis =>
      rw [List.flatMap_cons, List.length_append, inductionHypothesis, tally_cons]

@[simp] theorem tally_zero (items : List α) :
    tally (fun _ => 0) items = 0 := by
  induction items with
  | nil => rfl
  | cons item rest inductionHypothesis =>
      rw [tally_cons, inductionHypothesis]

/-- A tally is zero exactly when nothing counts. -/
theorem tally_eq_zero_iff {count : α → Nat} {items : List α} :
    tally count items = 0 ↔ ∀ item ∈ items, count item = 0 := by
  induction items with
  | nil => simp
  | cons item rest inductionHypothesis =>
      rw [tally_cons, Nat.add_eq_zero_iff, inductionHypothesis, List.forall_mem_cons]

theorem tally_add (first second : α → Nat) (items : List α) :
    tally (fun item => first item + second item) items =
      tally first items + tally second items := by
  induction items with
  | nil => rfl
  | cons item rest inductionHypothesis =>
      simp only [tally_cons, inductionHypothesis]
      omega

/-- Counting downwards makes as much as counting upwards. -/
theorem tally_range_reflect (count : Nat → Nat) (bound : Nat) :
    tally (fun number => count (bound - 1 - number)) (List.range bound) =
      tally count (List.range bound) := by
  have reversed := @List.reverse_range' 0 bound
  rw [Nat.zero_add, ← List.range_eq_range'] at reversed
  rw [← tally_map count fun number => bound - 1 - number, ← reversed]
  exact tally_perm count (List.reverse_perm _)

/-- Counting one of the numbers below a bound makes one. -/
theorem tally_range_indicator
    {number bound : Nat}
    (below : number < bound) :
    tally (fun other => if number = other then 1 else 0) (List.range bound) = 1 := by
  induction bound with
  | zero => omega
  | succ bound inductionHypothesis =>
      rw [List.range_succ, tally_append, tally_cons, tally_nil]
      by_cases last : number = bound
      · subst last
        have none : ∀ other ∈ List.range number, (if number = other then 1 else 0) = 0 := by
          intro other within
          have smaller := List.mem_range.mp within
          rw [if_neg (by omega)]
        rw [tally_congr none, if_pos rfl, tally_zero]
      · rw [inductionHypothesis (by omega), if_neg last]

/-- Counting the elements of a list key by key counts each element once. -/
theorem tally_length_filter
    {key : α → Nat}
    {bound : Nat}
    {items : List α}
    (below : ∀ item ∈ items, key item < bound) :
    tally (fun sought => (items.filter fun item => decide (key item = sought)).length)
        (List.range bound) =
      items.length := by
  induction items with
  | nil => simp
  | cons item rest inductionHypothesis =>
      obtain ⟨here, later⟩ := List.forall_mem_cons.mp below
      have split : ∀ sought,
          ((item :: rest).filter fun other => decide (key other = sought)).length =
            (if key item = sought then 1 else 0) +
              (rest.filter fun other => decide (key other = sought)).length := by
        intro sought
        by_cases same : key item = sought
        · simp [same, Nat.add_comm]
        · simp [same]
      simp only [split, tally_add, tally_range_indicator here, inductionHypothesis later,
        List.length_cons]
      omega

/-- The order of the elements does not change a balance. -/
theorem balance_perm
    (amount : α → Int)
    {first second : List α}
    (same : first.Perm second) :
    balance amount first = balance amount second := by
  induction same with
  | nil => rfl
  | cons item _ inductionHypothesis =>
      rw [balance_cons, balance_cons, inductionHypothesis]
  | swap item other rest =>
      simp only [balance_cons]
      omega
  | trans _ _ firstSame secondSame => exact firstSame.trans secondSame

theorem balance_map (amount : β → Int) (change : α → β) (items : List α) :
    balance amount (items.map change) = balance (fun item => amount (change item)) items := by
  simp [balance, List.foldl_map]

end Neurochip
