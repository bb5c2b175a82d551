import Neurochip.Decimal.Binary64
import Neurochip.Random.Draw

namespace Neurochip

/-!
# Random samples

Samples of distinct indices are drawn either by shuffling the front of the list
of all indices or, where few of many are wanted, by Floyd's method, which takes
one draw for each index and no list of all of them.  Poisson counts are drawn
by multiplying uniform fractions until the product falls below a limit.
-/

namespace Draw

/-- The number of double words that stand for a probability below one, rounded down. -/
def threshold (probability : Binary64) : UInt64 :=
  let (up, down) :=
    Binary64.scaled probability.significand 1 (-(probability.exponent + 64))
  .ofNat (up / down)

/-- A uniform draw from the fractions `n / 2 ^ 53` below one. -/
def fraction : Draw Binary64 := do
  let next ← doubleWord
  return .ofScaled (next >>> 11).toNat (-53)

/--
The number of factors after which a count ends.  It is a cut-off of this library,
which lets every count come to an end; a count as such goes on until its product
falls below the limit.  Counts as long as this are never seen.
-/
def maxCount : Nat := 1000

/-- Multiplies fractions until the product falls below the limit, and counts the factors. -/
def countFactors (limit product : Binary64) (count : Nat) : Nat → Draw Nat
  | 0 => return count
  | factors + 1 =>
      if product.lt limit then
        return count
      else do
        let factor ← fraction
        countFactors limit (product.mul factor) (count + 1) factors

/-- A Poisson count, where the limit is the probability of the count zero. -/
def poisson (limit : Binary64) : Draw Nat := do
  let product ← fraction
  countFactors limit product 0 maxCount

/-- Exchanges each of the first items with a random one from there on. -/
def shuffleFront (items : Array Nat) (front : Nat) : Nat → Draw (Array Nat)
  | 0 => return items
  | amount + 1 => do
      let offset ← indexBelow (items.size - front)
      shuffleFront (items.swapIfInBounds front (front + offset)) (front + 1) amount

/-- Distinct indices below a bound, by shuffling. -/
def sampleByShuffle (length amount : Nat) : Draw (List Nat) := do
  let shuffled ← shuffleFront (Array.range length) 0 amount
  return shuffled.toList.take amount

/-- The indices with one more: the drawn one, or before it the largest one if it is there already. -/
def insertDrawn (chosen : List Nat) (drawn largest : Nat) : List Nat :=
  match chosen with
  | [] => [drawn]
  | index :: rest =>
      if index = drawn then
        largest :: index :: rest
      else
        index :: insertDrawn rest drawn largest

/-- Floyd's method: one more index for each largest index that is allowed. -/
def floyd (chosen : List Nat) : List Nat → Draw (List Nat)
  | [] => return chosen
  | largest :: rest => do
      let drawn ← indexBelow (largest + 1)
      floyd (insertDrawn chosen drawn largest) rest

/-- Distinct indices below a bound, by Floyd's method. -/
def sampleByFloyd (length amount : Nat) : Draw (List Nat) :=
  floyd [] (List.range' (length - amount) amount)

/-- Whether shuffling is the cheaper method: for more than eleven indices, below a bound that is less
than `(10 + 1.6 * amount) * amount`. -/
def prefersShuffle (length amount : Nat) : Bool :=
  11 < amount && 5 * length < (50 + 8 * amount) * amount

/-- As many distinct indices below a bound as wanted, or all of them. -/
def sample (length amount : Nat) : Draw (List Nat) :=
  let amount := min amount length
  if prefersShuffle length amount then
    sampleByShuffle length amount
  else
    sampleByFloyd length amount

end Draw

end Neurochip
