namespace Neurochip

/-!
# Sets of characters

A property of characters is a table of the code points that have it.
-/

/-- A set of characters, as inclusive ranges of code points from low to high. -/
abbrev CharRanges : Type :=
  List (Nat × Nat)

namespace CharRanges

/-- Whether a character is in one of the ranges. -/
def covers (ranges : CharRanges) (character : Char) : Bool :=
  ranges.any fun (first, last) =>
    first ≤ character.toNat && character.toNat ≤ last

end CharRanges

end Neurochip
