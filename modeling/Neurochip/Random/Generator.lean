import Neurochip.Random.ChaCha

namespace Neurochip

/-!
# The random generator

A generator is a key stream: the words of the ChaCha blocks 0, 1, 2, … one
after the other.  It is kept as the key, the number of the next block and the
words of the current block that are still to come.
-/

/-- A position in the key stream of one key. -/
structure Generator where
  key : ChaCha.Key
  nextBlock : UInt64
  pending : List UInt32
  deriving Repr, DecidableEq

namespace Generator

/-- One step of the sequence that spreads a seed over the key. -/
def seedStep (state : UInt64) : UInt64 :=
  state * 6364136223846793005 + 11634580027462260723

/-- The key word of one seed state: high bits mixed, cut to a word and rotated to the right. -/
def seedWord (state : UInt64) : UInt32 :=
  let mixed := (((state >>> 18) ^^^ state) >>> 27).toUInt32
  let amount := (state >>> 59).toUInt32
  (mixed >>> amount) ||| (mixed <<< ((32 - amount) % 32))

/-- Four consecutive key words, and the state after them. -/
def seedRow (state : UInt64) : ChaCha.Row × UInt64 :=
  let first := seedStep state
  let second := seedStep first
  let third := seedStep second
  let fourth := seedStep third
  (⟨seedWord first, seedWord second, seedWord third, seedWord fourth⟩, fourth)

/-- The generator at the start of the key stream that belongs to a seed. -/
def ofSeed (seed : UInt64) : Generator :=
  let (low, state) := seedRow seed
  let (high, _) := seedRow state
  ⟨⟨low, high⟩, 0, []⟩

end Generator

end Neurochip
