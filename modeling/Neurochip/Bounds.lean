namespace Neurochip

/-!
# Closed integer ranges

Registers, weights and parameters all live in fixed ranges of integers.  A
`Bounds` is such a range; it is never empty, so clamping into it always has an
answer.  A computation that does not clamp refuses a result outside its range
by `within?`.  The lemmas say that a clamped value is in the range, that a value
already there is kept, and that clamping respects the order.
-/

/-- A nonempty range of integers with both ends included. -/
structure Bounds where
  lower : Int
  upper : Int
  ordered : lower ≤ upper := by decide
  deriving Repr, DecidableEq

namespace Bounds

/-- Whether a value lies between the two ends. -/
def Contains (bounds : Bounds) (value : Int) : Prop :=
  bounds.lower ≤ value ∧ value ≤ bounds.upper

instance (bounds : Bounds) (value : Int) : Decidable (bounds.Contains value) :=
  inferInstanceAs (Decidable (_ ∧ _))

/-- The value of the range nearest to the given one. -/
def clamp (bounds : Bounds) (value : Int) : Int :=
  if value < bounds.lower then bounds.lower
  else if bounds.upper < value then bounds.upper
  else value

/-- The given value, if the range has it. -/
def within? (bounds : Bounds) (value : Int) : Option Int :=
  if bounds.Contains value then some value else none

/-- The range between two ends, if they are in order. -/
def ofEnds? (lower upper : Int) : Option Bounds :=
  if ordered : lower ≤ upper then some ⟨lower, upper, ordered⟩ else none

/-- Signed words of 32 bits. -/
def int32 : Bounds :=
  { lower := -2147483648, upper := 2147483647 }

/-- Signed words of 64 bits. -/
def int64 : Bounds :=
  { lower := -9223372036854775808, upper := 9223372036854775807 }

/-- Clamping always lands in the range. -/
theorem contains_clamp (bounds : Bounds) (value : Int) :
    bounds.Contains (bounds.clamp value) := by
  have := bounds.ordered
  unfold clamp Contains
  split
  · omega
  · split <;> omega

/-- A value of the range is its own clamp. -/
theorem clamp_eq_self
    {bounds : Bounds}
    {value : Int}
    (inside : bounds.Contains value) :
    bounds.clamp value = value := by
  unfold Contains at inside
  unfold clamp
  split
  · omega
  · split <;> omega

/-- Clamping keeps the order of two values. -/
theorem clamp_le_clamp
    (bounds : Bounds)
    {small large : Int}
    (ordered : small ≤ large) :
    bounds.clamp small ≤ bounds.clamp large := by
  have := bounds.ordered
  unfold clamp
  repeat' split
  all_goals omega

/-- Clamping into a wider range first makes no difference. -/
theorem clamp_clamp
    {inner outer : Bounds}
    (lower : outer.lower ≤ inner.lower)
    (upper : inner.upper ≤ outer.upper)
    (value : Int) :
    inner.clamp (outer.clamp value) = inner.clamp value := by
  have := inner.ordered
  unfold clamp
  repeat' split
  all_goals omega

/-- Clamping into a range around zero brings a value toward zero or leaves it. -/
theorem clamp_between
    {bounds : Bounds}
    (zeroInside : bounds.Contains 0)
    {value low high : Int}
    (lowNonpositive : low ≤ 0)
    (highNonnegative : 0 ≤ high)
    (between : low ≤ value ∧ value ≤ high) :
    low ≤ bounds.clamp value ∧ bounds.clamp value ≤ high := by
  unfold Contains at zeroInside
  unfold clamp
  split
  · omega
  · split <;> omega

/-- A value passes unchanged exactly when the range has it. -/
theorem within?_eq_some_iff
    {bounds : Bounds}
    {value result : Int} :
    bounds.within? value = some result ↔
      bounds.Contains value ∧ result = value := by
  unfold within?
  split <;> simp_all [eq_comm]

/-- A value is refused exactly when the range does not have it. -/
@[simp] theorem within?_eq_none_iff
    {bounds : Bounds}
    {value : Int} :
    bounds.within? value = none ↔ ¬ bounds.Contains value := by
  simp [within?]

end Bounds

/-- The signed word of the given width that has the same low bits as the value. -/
def wrapSigned (bits : Nat) (value : Int) : Int :=
  value.bmod (1 <<< bits)

end Neurochip
