namespace Neurochip

/-!
# Capacity

Numbers of elements are given as words of 64 bits, but no machine has room for
as many elements as such a word can count.  Anything that would hold more
elements than the capacity is not built.  Where the room ends depends on the
machine and on what the elements are; here it ends at one number for all.
-/

namespace Capacity

/--
The largest number of elements that fit into one object.  It is a cut-off of this
library; a machine has room for some number of bytes instead.
-/
def limit : Nat := 1 <<< 32

/-- Whether there is room for a number of elements. -/
def HasRoom (elements : Nat) : Prop :=
  elements ≤ limit

instance (elements : Nat) : Decidable (HasRoom elements) :=
  inferInstanceAs (Decidable (_ ≤ _))

/-- The given number of elements, if there is room for them. -/
def roomFor? (elements : Nat) : Option Nat :=
  if HasRoom elements then some elements else none

@[simp] theorem roomFor?_of_hasRoom {elements : Nat} (room : HasRoom elements) :
    roomFor? elements = some elements :=
  if_pos room

end Capacity

end Neurochip
