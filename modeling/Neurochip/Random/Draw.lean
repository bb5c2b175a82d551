import Neurochip.Bounds
import Neurochip.Random.Generator

namespace Neurochip

/-!
# Draws

A draw takes words from a generator and leaves the generator behind them.
Uniform draws scale a word to a range by a multiplication: the high half of the
product is the result, and the low half tells whether the word belongs to the
part of the word range that divides evenly.  Other words are refused and drawn
again.  A refusal has a chance below one half, so the number of refusals is
bounded here without a difference that can be observed; the word after the last
one is taken as it is, which keeps the result in the range.
-/

/-- A computation that draws from a generator. -/
abbrev Draw (α : Type) : Type :=
  StateM Generator α

namespace Draw

/-- A value that is known takes no words. -/
@[simp high] theorem run_pure (value : α) (generator : Generator) :
    (pure value : Draw α).run generator = (value, generator) :=
  rfl

/-- A draw that follows another one starts where that one has left the generator. -/
@[simp high] theorem run_bind (draw : Draw α) (next : α → Draw β) (generator : Generator) :
    (draw >>= next).run generator =
      (next (draw.run generator).1).run (draw.run generator).2 :=
  rfl

/-- A function of a draw takes the words of the draw. -/
@[simp high] theorem run_map (change : α → β) (draw : Draw α) (generator : Generator) :
    (change <$> draw).run generator =
      (change (draw.run generator).1, (draw.run generator).2) :=
  rfl

/-- The next word of 32 bits. -/
def word : Draw UInt32 := fun generator =>
  match generator with
  | ⟨key, number, next :: rest⟩ =>
      (next, ⟨key, number, rest⟩)
  | ⟨key, number, []⟩ =>
      let block := ChaCha.block key number
      (block.top.first,
        ⟨key, number + 1,
          [block.top.second, block.top.third, block.top.fourth,
            block.upper.first, block.upper.second, block.upper.third, block.upper.fourth,
            block.lower.first, block.lower.second, block.lower.third, block.lower.fourth,
            block.bottom.first, block.bottom.second, block.bottom.third,
            block.bottom.fourth]⟩)

/-- The next two words as one of 64 bits, the low half first. -/
def doubleWord : Draw UInt64 := do
  let low ← word
  let high ← word
  return high.toUInt64 <<< 32 ||| low.toUInt64

/-- The number of words of 32 bits. -/
def wordSize : Nat := 4294967296

/-- The number of words of 64 bits. -/
def doubleWordSize : Nat := 18446744073709551616

/--
The number of refused words after which the next one is taken.  It is a cut-off
of this library, which lets every draw come to an end; a uniform draw as such
goes on for as long as words are refused.
-/
def maxRefusals : Nat := 127

/-- The largest low half that is accepted: the bound moved up to the top of a word, less one. -/
def shiftedLimit (bits bound : Nat) : Nat :=
  bound <<< (bits - 1 - bound.log2) - 1

/-- Draws words of one size until one is accepted, and answers the high half of its product. -/
def scale (next : Draw Nat) (size bound limit : Nat) : Nat → Draw Nat
  | 0 => do
      let number ← next
      return number * bound / size
  | refusals + 1 => do
      let number ← next
      let product := number * bound
      if product % size ≤ limit then
        return product / size
      else
        scale next size bound limit refusals

/-- Scales double words. -/
def scaleDoubleWord (bound limit refusals : Nat) : Draw Nat :=
  scale (UInt64.toNat <$> doubleWord) doubleWordSize bound limit refusals

/-- Scales single words. -/
def scaleWord (bound limit refusals : Nat) : Draw Nat :=
  scale (UInt32.toNat <$> word) wordSize bound limit refusals

/-- A uniform draw from the numbers below a positive bound of at most 63 bits. -/
def below (bound : Nat) : Draw Nat :=
  scaleDoubleWord bound (shiftedLimit 64 bound) maxRefusals

/-- A uniform draw from the indices below a positive bound of at most 32 bits. -/
def indexBelow (bound : Nat) : Draw Nat :=
  scaleWord bound (shiftedLimit 32 bound) maxRefusals

/-- A uniform draw from a range of integers, which takes a word even from a single value. -/
def within (range : Bounds) : Draw Int := do
  let size := (range.upper - range.lower + 1).toNat
  let limit := wordSize - 1 - (wordSize - size) % size
  let offset ← scaleWord size limit maxRefusals
  return range.lower + offset

/-- Whether an event of probability `threshold / 2 ^ 64` happens. -/
def chance (threshold : UInt64) : Draw Bool := do
  let next ← doubleWord
  return next < threshold

end Draw

end Neurochip
