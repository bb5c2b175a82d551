import Mathlib.Data.Set.Function
import Neurochip.Random.Seeding

namespace Neurochip.Seeding

/-!
# Seeds are not shared

A hash rotates, combines with a word and multiplies by an odd number, and all of
this can be undone.  So different hashes stay different, whatever words they
absorb, and the word that was absorbed last can be read off a hash.  The main
statement says this of seeds: no two objects of a kind have the same one, and no
object has the same one in two runs.
-/

/-- Rotating by less than the width can be undone by rotating the other way. -/
theorem rotateRight_rotateLeft
    {width amount : Nat}
    (short : amount < width)
    (bits : BitVec width) :
    (bits.rotateLeft amount).rotateRight amount = bits := by
  refine BitVec.eq_of_getLsbD_eq fun place inside => ?_
  rw [BitVec.getLsbD_rotateRight_of_lt short, BitVec.getLsbD_rotateLeft_of_le short,
    BitVec.getLsbD_rotateLeft_of_le short]
  by_cases low : place < width - amount
  · have moved : ¬ amount + place < amount := by omega
    have still : amount + place < width := by omega
    simp [low, moved, still]
  · have wrapped : place - (width - amount) < amount := by omega
    have back : width - amount + (place - (width - amount)) = place := by omega
    simp [low, inside, wrapped, back]

/-- Rotates a word of 64 bits to the right by five. -/
def rotateBack (word : UInt64) : UInt64 :=
  (word >>> 5) ||| (word <<< 59)

theorem rotateBack_rotateFive (word : UInt64) : rotateBack (rotateFive word) = word :=
  UInt64.toBitVec_inj.mp (rotateRight_rotateLeft (by decide) word.toBitVec)

/-- The inverse of the factor of a hash, modulo the number of words. -/
def inverseFactor : UInt64 := 0x2040003d780970bd

/-- What a hash was before it was multiplied. -/
theorem absorb_mul_inverseFactor (hash word : UInt64) :
    absorb hash word * inverseFactor = rotateFive hash ^^^ word := by
  have inverse : (0x517cc1b727220a95 : UInt64) * inverseFactor = 1 := by decide
  rw [absorb, UInt64.mul_assoc, inverse, UInt64.mul_one]

/-- The hash that became another one by absorbing the given word. -/
def hashBefore (word after : UInt64) : UInt64 :=
  rotateBack (after * inverseFactor ^^^ word)

/-- The word by which the given hash became another one. -/
def wordBetween (before after : UInt64) : UInt64 :=
  rotateFive before ^^^ after * inverseFactor

theorem hashBefore_absorb (word : UInt64) :
    Function.LeftInverse (hashBefore word) fun hash => absorb hash word := by
  intro hash
  rw [hashBefore, absorb_mul_inverseFactor, UInt64.xor_assoc, UInt64.xor_self, UInt64.xor_zero,
    rotateBack_rotateFive]

theorem wordBetween_absorb (hash : UInt64) :
    Function.LeftInverse (wordBetween hash) (absorb hash) := by
  intro word
  rw [wordBetween, absorb_mul_inverseFactor, ← UInt64.xor_assoc, UInt64.xor_self,
    UInt64.zero_xor]

/-- Different words lead from a hash to different ones. -/
theorem absorb_injective (hash : UInt64) : Function.Injective (absorb hash) :=
  (wordBetween_absorb hash).injective

/-- Different hashes stay different, whatever words they absorb. -/
theorem foldl_absorb_injective (absorbed : List UInt64) :
    Function.Injective fun hash => absorbed.foldl absorb hash := by
  induction absorbed with
  | nil => exact fun _ _ same => same
  | cons word rest inductionHypothesis =>
      exact inductionHypothesis.comp (hashBefore_absorb word).injective

/-- The seed of an object is the hash of the run's seed, the words of its kind, the closing byte and
its index. -/
theorem objectSeed_eq_foldl (seed : UInt64) (kind : String) (index : UInt64) :
    objectSeed seed kind index =
      (words kind.toUTF8.toList ++ [255, index]).foldl absorb (absorb 0 seed) := by
  rw [List.foldl_append]
  rfl

/-- Different numbers are different words, if there are as many words. -/
theorem injOn_toUInt64 : Set.InjOn Nat.toUInt64 {number | number < UInt64.size} := by
  intro first firstBelow second secondBelow same
  have numbers := congrArg UInt64.toNat same
  rwa [UInt64.toNat_ofNat_of_lt' firstBelow, UInt64.toNat_ofNat_of_lt' secondBelow] at numbers

/-- The objects of a kind do not share seeds. -/
structure NeverShared (kind : String) : Prop where
  /-- A seed is all that the generator of an object starts from. -/
  start : ∀ seed index,
    Generator.ofObject seed kind index = Generator.ofSeed (objectSeed seed kind index)
  ofObjects : ∀ seed, Function.Injective fun index => objectSeed seed kind index
  ofRuns : ∀ index, Function.Injective fun seed => objectSeed seed kind index
  /-- Networks number the objects of a kind from zero. -/
  ofNumbers : ∀ seed,
    Set.InjOn (fun number : Nat => objectSeed seed kind number.toUInt64)
      {number | number < UInt64.size}

/-- Whatever the kind of objects, no two of them have the same seed in a run, and none of them has
the same seed in two runs. -/
theorem objectSeed_is_never_shared (kind : String) : NeverShared kind where
  start _ _ := rfl
  ofObjects _ := absorb_injective _
  ofRuns index := by
    simp only [objectSeed_eq_foldl]
    exact (foldl_absorb_injective _).comp (absorb_injective 0)
  ofNumbers _ := (absorb_injective _).comp_injOn injOn_toUInt64

/-- The first two neuron groups of a run have different seeds, and so has the first one in the next
run. -/
theorem objectSeed_is_never_shared_by_neuron_groups :
    objectSeed 7 "neuron_group" 0 ≠ objectSeed 7 "neuron_group" 1 ∧
      objectSeed 7 "neuron_group" 0 ≠ objectSeed 8 "neuron_group" 0 := by
  obtain ⟨-, ofObjects, ofRuns, -⟩ := objectSeed_is_never_shared "neuron_group"
  exact ⟨fun same => absurd (ofObjects 7 same) (by decide),
    fun same => absurd (ofRuns 0 same) (by decide)⟩

end Neurochip.Seeding
