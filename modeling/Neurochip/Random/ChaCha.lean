namespace Neurochip.ChaCha

/-!
# The ChaCha block function with twelve rounds

A block is a square of sixteen words in four rows.  Every round applies the
quarter round to the four columns at once, so it is written on whole rows;
between rounds the lower rows are shifted so that diagonals become columns.
All word arithmetic is modulo `2 ^ 32`.
-/

/-- Four words that each step treats alike. -/
structure Row where
  first : UInt32
  second : UInt32
  third : UInt32
  fourth : UInt32
  deriving Repr, DecidableEq

namespace Row

/-- Lane by lane sum. -/
@[inline] def add (left right : Row) : Row :=
  ⟨left.first + right.first, left.second + right.second,
    left.third + right.third, left.fourth + right.fourth⟩

/-- Lane by lane exclusive or. -/
@[inline] def xor (left right : Row) : Row :=
  ⟨left.first ^^^ right.first, left.second ^^^ right.second,
    left.third ^^^ right.third, left.fourth ^^^ right.fourth⟩

/-- The word with its bits rotated to the left, for amounts from 1 to 31. -/
@[inline] def rotateWord (word amount : UInt32) : UInt32 :=
  (word <<< amount) ||| (word >>> (32 - amount))

/-- Rotates the bits of every lane to the left. -/
@[inline] def rotate (row : Row) (amount : UInt32) : Row :=
  ⟨rotateWord row.first amount, rotateWord row.second amount,
    rotateWord row.third amount, rotateWord row.fourth amount⟩

/-- Moves every lane one place to the left, the first one to the end. -/
@[inline] def shift (row : Row) : Row :=
  ⟨row.second, row.third, row.fourth, row.first⟩

end Row

/-- Sixteen words in four rows. -/
structure Block where
  top : Row
  upper : Row
  lower : Row
  bottom : Row
  deriving Repr, DecidableEq

namespace Block

/-- The quarter round on all four columns. -/
@[inline] def columnRound (block : Block) : Block :=
  let top := block.top.add block.upper
  let bottom := (block.bottom.xor top).rotate 16
  let lower := block.lower.add bottom
  let upper := (block.upper.xor lower).rotate 12
  let top := top.add upper
  let bottom := (bottom.xor top).rotate 8
  let lower := lower.add bottom
  let upper := (upper.xor lower).rotate 7
  ⟨top, upper, lower, bottom⟩

/-- Turns the diagonals of the square into its columns. -/
@[inline] def diagonalsUp (block : Block) : Block :=
  ⟨block.top, block.upper.shift, block.lower.shift.shift,
    block.bottom.shift.shift.shift⟩

/-- Turns the columns of the square back into its diagonals. -/
@[inline] def diagonalsDown (block : Block) : Block :=
  ⟨block.top, block.upper.shift.shift.shift, block.lower.shift.shift,
    block.bottom.shift⟩

/-- One column round and one diagonal round. -/
def doubleRound (block : Block) : Block :=
  block.columnRound.diagonalsUp.columnRound.diagonalsDown

/-- The given number of double rounds. -/
def doubleRounds : Nat → Block → Block
  | 0, block => block
  | count + 1, block => doubleRounds count block.doubleRound

/-- Word by word sum. -/
@[inline] def add (left right : Block) : Block :=
  ⟨left.top.add right.top, left.upper.add right.upper,
    left.lower.add right.lower, left.bottom.add right.bottom⟩

end Block

/-- A key of eight words. -/
structure Key where
  low : Row
  high : Row
  deriving Repr, DecidableEq

/-- The four words that open every block. -/
def constants : Row :=
  ⟨0x61707865, 0x3320646e, 0x79622d32, 0x6b206574⟩

/-- The output block with the given number: six double rounds, then the start added again. -/
def block (key : Key) (number : UInt64) : Block :=
  let start : Block :=
    ⟨constants, key.low, key.high, ⟨number.toUInt32, (number >>> 32).toUInt32, 0, 0⟩⟩
  (Block.doubleRounds 6 start).add start

end Neurochip.ChaCha
