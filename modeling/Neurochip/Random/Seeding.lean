import Neurochip.Random.Generator

namespace Neurochip

/-!
# Seeds of simulation objects

Each simulation object draws from a generator of its own.  Its seed is a hash
of the run's seed, the kind of object and its index, so it depends neither on
the other objects nor on the order in which they are updated.  A hash absorbs
words of 64 bits; a text is absorbed in words of eight, four, two and one
bytes, low byte first, followed by the byte 255.
-/

namespace Seeding

/-- Rotates a word of 64 bits to the left by five. -/
def rotateFive (word : UInt64) : UInt64 :=
  (word <<< 5) ||| (word >>> 59)

/-- The hash after one more word. -/
def absorb (hash word : UInt64) : UInt64 :=
  (rotateFive hash ^^^ word) * 0x517cc1b727220a95

/-- The number with the given digits in base 256, low digit first. -/
def littleEndian (bytes : List UInt8) : UInt64 :=
  bytes.foldr (fun byte rest => rest <<< 8 ||| byte.toUInt64) 0

/-- The words in which a text of fewer than eight bytes is absorbed. -/
def shortWords (bytes : List UInt8) : List UInt64 :=
  let (fours, bytes) :=
    if 4 ≤ bytes.length then ([bytes.take 4], bytes.drop 4) else ([], bytes)
  let (twos, bytes) :=
    if 2 ≤ bytes.length then ([bytes.take 2], bytes.drop 2) else ([], bytes)
  let ones :=
    if 1 ≤ bytes.length then [bytes.take 1] else []
  (fours ++ twos ++ ones).map littleEndian

/-- The words in which a text is absorbed. -/
def words (bytes : List UInt8) : List UInt64 :=
  if 8 ≤ bytes.length then
    littleEndian (bytes.take 8) :: words (bytes.drop 8)
  else
    shortWords bytes
termination_by bytes.length
decreasing_by
  simp only [List.length_drop]
  omega

/-- The hash after a text and its closing byte. -/
def absorbText (hash : UInt64) (text : String) : UInt64 :=
  absorb ((words text.toUTF8.toList).foldl absorb hash) 255

/-- The seed of the object with the given index among those of its kind. -/
def objectSeed (seed : UInt64) (kind : String) (index : UInt64) : UInt64 :=
  absorb (absorbText (absorb 0 seed) kind) index

end Seeding

/-- The generator of one simulation object. -/
def Generator.ofObject (seed : UInt64) (kind : String) (index : UInt64) : Generator :=
  Generator.ofSeed (Seeding.objectSeed seed kind index)

end Neurochip
