namespace Neurochip

/-!
# Tallies

Reports count things over the elements of a list.  A tally adds up one number
for each element.
-/

/-- The sum of a natural number for each element. -/
def tally (count : α → Nat) (items : List α) : Nat :=
  items.foldl (fun sum item => sum + count item) 0

/-- The sum of an integer for each element. -/
def balance (amount : α → Int) (items : List α) : Int :=
  items.foldl (fun sum item => sum + amount item) 0

/-- Adding up from a start is the start plus the tally. -/
private theorem foldl_count (count : α → Nat) (items : List α) (start : Nat) :
    items.foldl (fun sum item => sum + count item) start = start + tally count items := by
  induction items generalizing start with
  | nil => rfl
  | cons item rest inductionHypothesis =>
      rw [tally, List.foldl_cons, List.foldl_cons, inductionHypothesis, inductionHypothesis]
      omega

/-- Adding up from a start is the start plus the balance. -/
private theorem foldl_amount (amount : α → Int) (items : List α) (start : Int) :
    items.foldl (fun sum item => sum + amount item) start = start + balance amount items := by
  induction items generalizing start with
  | nil =>
      rw [balance, List.foldl_nil, List.foldl_nil]
      omega
  | cons item rest inductionHypothesis =>
      rw [balance, List.foldl_cons, List.foldl_cons, inductionHypothesis, inductionHypothesis]
      omega

/-- Nothing adds up to zero. -/
@[simp] theorem tally_nil (count : α → Nat) :
    tally count [] = 0 :=
  rfl

/-- The first element adds its number to the tally of the others. -/
@[simp] theorem tally_cons (count : α → Nat) (item : α) (rest : List α) :
    tally count (item :: rest) = count item + tally count rest := by
  rw [tally, List.foldl_cons, foldl_count]
  omega

/-- Nothing balances at zero. -/
@[simp] theorem balance_nil (amount : α → Int) :
    balance amount [] = 0 :=
  rfl

/-- The first element adds its amount to the balance of the others. -/
@[simp] theorem balance_cons (amount : α → Int) (item : α) (rest : List α) :
    balance amount (item :: rest) = amount item + balance amount rest := by
  rw [balance, List.foldl_cons, foldl_amount]
  omega

end Neurochip
