import Mathlib.Algebra.Order.Floor.Div
import Mathlib.Order.Interval.Finset.Nat
import Neurochip.Proofs.Random.CutOffs

namespace Neurochip

/-!
# Draws below a bound

A draw below a bound takes double words until it accepts one, and answers the
high half of the product of that word and the bound.  The main statements say
that such a draw always moves the generator ahead, and that it answers exactly
the numbers below the bound, each of them for equally many accepted words.
-/

namespace Generator

/-- The place of the next word in the key stream, whose blocks have 16 words each. -/
def position (generator : Generator) : Int :=
  16 * generator.nextBlock.toNat - generator.pending.length

/-- The length of a key stream, after which the block numbers start again. -/
def period : Int := 295147905179352825856

/-- A generator that has given some words since it was the earlier one. -/
def IsAhead (words : Nat) (later earlier : Generator) : Prop :=
  period ∣ later.position - (earlier.position + words)

variable {words others : Nat} {first second third : Generator}

theorem isAhead_zero (generator : Generator) : IsAhead 0 generator generator := by
  simp [IsAhead]

theorem IsAhead.trans
    (ahead : IsAhead words second first)
    (further : IsAhead others third second) :
    IsAhead (words + others) third first := by
  unfold IsAhead period at *
  omega

/-- A generator that has given some words, and not a whole stream, is another one. -/
theorem IsAhead.ne
    (ahead : IsAhead words second first)
    (positive : 0 < words)
    (within : words < period) :
    second ≠ first := by
  rintro rfl
  unfold IsAhead period at *
  omega

end Generator

namespace Draw

open Generator (IsAhead)

/-- A word is the next one of its block, or the first one of the next block. -/
theorem isAhead_word (generator : Generator) :
    IsAhead 1 (word.run generator).2 generator := by
  obtain ⟨key, number, pending⟩ := generator
  cases pending with
  | nil =>
      have next : (number + 1).toNat = (number.toNat + 1) % 18446744073709551616 :=
        UInt64.toNat_add number 1
      show (295147905179352825856 : Int) ∣
        16 * ((number + 1).toNat : Int) - 15 - (16 * number.toNat - 0 + 1)
      omega
  | cons next rest =>
      show (295147905179352825856 : Int) ∣
        16 * number.toNat - rest.length - (16 * number.toNat - (rest.length + 1 : Nat) + 1)
      omega

theorem isAhead_doubleWord (generator : Generator) :
    IsAhead 2 (doubleWord.run generator).2 generator :=
  (isAhead_word generator).trans (isAhead_word _)

/-- Scaling takes two words for each refusal, and two for the answer. -/
theorem isAhead_scaleDoubleWord
    (bound limit refusals : Nat)
    (generator : Generator) :
    ∃ words, 0 < words ∧ words ≤ 2 * (refusals + 1) ∧
      IsAhead words ((scaleDoubleWord bound limit refusals).run generator).2 generator := by
  induction refusals generalizing generator with
  | zero => exact ⟨2, by omega, by omega, isAhead_doubleWord generator⟩
  | succ refusals inductionHypothesis =>
      rw [scaleDoubleWord, scale, run_bind]
      dsimp only
      split
      · exact ⟨2, by omega, by omega, isAhead_doubleWord generator⟩
      · obtain ⟨words, positive, few, ahead⟩ := inductionHypothesis (doubleWord.run generator).2
        exact ⟨2 + words, by omega, by omega, (isAhead_doubleWord generator).trans ahead⟩

/-- A draw below a bound moves the generator ahead. -/
theorem isAhead_below (bound : Nat) (generator : Generator) :
    ∃ words, 0 < words ∧ words ≤ 256 ∧
      IsAhead words ((below bound).run generator).2 generator :=
  isAhead_scaleDoubleWord bound (shiftedLimit 64 bound) maxRefusals generator

theorem run_below_ne (bound : Nat) (generator : Generator) :
    ((below bound).run generator).2 ≠ generator := by
  obtain ⟨words, positive, few, ahead⟩ := isAhead_below bound generator
  exact ahead.ne positive (by unfold Generator.period; omega)

variable {bound : Nat}

theorem run_scaleDoubleWord_lt
    (positive : 0 < bound)
    (limit refusals : Nat)
    (generator : Generator) :
    ((scaleDoubleWord bound limit refusals).run generator).1 < bound :=
  run_scale_lt positive (fun generator => (doubleWord.run generator).1.toNat_lt) limit refusals
    generator

/-- A double word has its low half first. -/
theorem toNat_doubleWord (low high : UInt32) :
    (high.toUInt64 <<< 32 ||| low.toUInt64).toNat = high.toNat * 4294967296 + low.toNat := by
  have lowSmall : low.toNat < 2 ^ 32 := low.toNat_lt
  have highSmall : high.toNat < 2 ^ 32 := high.toNat_lt
  have shifted : (high.toUInt64 <<< 32).toNat = high.toNat <<< 32 := by
    rw [UInt64.toNat_shiftLeft, UInt32.toNat_toUInt64]
    show high.toNat <<< 32 % 2 ^ 64 = _
    rw [Nat.shiftLeft_eq]
    omega
  rw [UInt64.toNat_or, shifted, UInt32.toNat_toUInt64, ← Nat.shiftLeft_add_eq_or_of_lt lowSmall,
    Nat.shiftLeft_eq]

/-- Some generator has a given double word next. -/
theorem exists_run_doubleWord
    {word : Nat}
    (small : word < doubleWordSize) :
    ∃ generator, (doubleWord.run generator).1.toNat = word := by
  unfold doubleWordSize at small
  let low := UInt32.ofNat (word % 4294967296)
  let high := UInt32.ofNat (word / 4294967296)
  have lowHalf : low.toNat = word % 4294967296 :=
    UInt32.toNat_ofNat_of_lt' (Nat.mod_lt _ (by decide))
  have highHalf : high.toNat = word / 4294967296 :=
    UInt32.toNat_ofNat_of_lt' (Nat.div_lt_of_lt_mul small)
  refine ⟨⟨(Generator.ofSeed 0).key, 0, [low, high]⟩, (toNat_doubleWord low high).trans ?_⟩
  rw [lowHalf, highHalf]
  exact Nat.div_add_mod' word 4294967296

/-- The double words that are accepted, and answered by the given number. -/
def wordsFor (bound number : Nat) : Finset Nat :=
  (Finset.range doubleWordSize).filter fun word =>
    word * bound % doubleWordSize ≤ shiftedLimit 64 bound ∧ word * bound / doubleWordSize = number

/-- A generator whose next double word is accepted answers with it. -/
theorem run_below_of_mem_wordsFor
    {number : Nat}
    {generator : Generator}
    (member : (doubleWord.run generator).1.toNat ∈ wordsFor bound number) :
    ((below bound).run generator).1 = number := by
  obtain ⟨_, accepted, answered⟩ := Finset.mem_filter.mp member
  have scales : Scales (UInt64.toNat <$> doubleWord) doubleWordSize bound (shiftedLimit 64 bound)
      0 generator _ := .accepts accepted
  exact (congrArg Prod.fst (scales.run_scale (Nat.zero_le maxRefusals))).trans answered

/-- The number of words that are accepted for each number below a bound. -/
def acceptedWords (bound : Nat) : Nat :=
  2 ^ (63 - bound.log2)

/-- The bound moved up to the top of a word is the bound times a power of two. -/
theorem shiftedLimit_eq (bound : Nat) :
    shiftedLimit 64 bound = bound * acceptedWords bound - 1 := by
  rw [shiftedLimit, Nat.shiftLeft_eq, acceptedWords]

theorem mul_acceptedWords_le
    (positive : 0 < bound)
    (fits : bound < doubleWordSize) :
    bound * acceptedWords bound ≤ doubleWordSize := by
  have short : bound.log2 < 64 := (Nat.log2_lt (Nat.ne_of_gt positive)).mpr fits
  calc
    bound * acceptedWords bound ≤ 2 ^ (bound.log2 + 1) * 2 ^ (63 - bound.log2) :=
      Nat.mul_le_mul_right _ (Nat.le_of_lt Nat.lt_log2_self)
    _ = 2 ^ 64 := by rw [← Nat.pow_add]; congr 1; omega

/-- The accepted words for a number are those whose product with the bound is in a range as long as
a multiple of the bound. -/
theorem mem_wordsFor_iff
    {number word : Nat}
    (fits : bound < doubleWordSize)
    (small : number < bound) :
    word ∈ wordsFor bound number ↔
      number * doubleWordSize ≤ bound * word ∧
        bound * word < number * doubleWordSize + bound * acceptedWords bound := by
  have positive : 0 < bound := by omega
  have limit := mul_acceptedWords_le positive fits
  have nonzero : 0 < bound * acceptedWords bound :=
    Nat.mul_pos positive (Nat.two_pow_pos _)
  have whole := Nat.div_add_mod (word * bound) doubleWordSize
  have rest : word * bound % doubleWordSize < doubleWordSize := Nat.mod_lt _ (by decide)
  rw [wordsFor, Finset.mem_filter, Finset.mem_range, shiftedLimit_eq, Nat.mul_comm bound word]
  constructor
  · rintro ⟨_, accepted, rfl⟩
    rw [Nat.mul_comm _ doubleWordSize]
    omega
  · rintro ⟨atLeast, below⟩
    have quotient : word * bound / doubleWordSize = number :=
      Nat.div_eq_of_lt_le atLeast (by rw [Nat.succ_mul]; omega)
    refine ⟨?_, ?_, quotient⟩
    · have top : number * doubleWordSize + doubleWordSize ≤ doubleWordSize * bound := by
        rw [← Nat.succ_mul, Nat.mul_comm doubleWordSize]
        exact Nat.mul_le_mul_right _ small
      exact Nat.lt_of_mul_lt_mul_right (Nat.lt_of_lt_of_le below (by omega))
    · rw [quotient, Nat.mul_comm doubleWordSize] at whole
      omega

/-- All numbers below a bound are answers for equally many accepted words. -/
theorem card_wordsFor
    {number : Nat}
    (fits : bound < doubleWordSize)
    (small : number < bound) :
    (wordsFor bound number).card = acceptedWords bound := by
  have positive : 0 < bound := by omega
  let first := number * doubleWordSize ⌈/⌉ bound
  have words : wordsFor bound number = Finset.Ico first (first + acceptedWords bound) := by
    ext word
    rw [mem_wordsFor_iff fits small, Finset.mem_Ico, ceilDiv_le_iff_le_mul positive]
    refine and_congr_right fun _ => ?_
    rcases Nat.lt_or_ge word (acceptedWords bound) with few | many
    · have := Nat.mul_lt_mul_of_pos_left few positive
      omega
    · obtain ⟨rest, rfl⟩ := Nat.exists_eq_add_of_le' many
      have atLeast : first ≤ rest ↔ number * doubleWordSize ≤ bound * rest :=
        ceilDiv_le_iff_le_mul positive
      rw [Nat.mul_add]
      omega
  rw [words, Nat.card_Ico, Nat.add_sub_cancel_left]

/-- The numbers that a draw below a bound answers are those below it. -/
theorem exists_run_below_iff
    (positive : 0 < bound)
    (fits : bound < doubleWordSize)
    (number : Nat) :
    (∃ generator, ((below bound).run generator).1 = number) ↔ number < bound := by
  constructor
  · rintro ⟨generator, rfl⟩
    exact run_scaleDoubleWord_lt positive _ _ generator
  · intro small
    have some : (wordsFor bound number).Nonempty := by
      rw [← Finset.card_pos, card_wordsFor fits small]
      exact Nat.two_pow_pos _
    obtain ⟨word, member⟩ := some
    obtain ⟨generator, next⟩ :=
      exists_run_doubleWord (Finset.mem_range.mp (Finset.mem_filter.mp member).1)
    exact ⟨generator, run_below_of_mem_wordsFor (next ▸ member)⟩

/-- What makes a draw below a bound uniform: all numbers below the bound are drawn and no others,
and of the words that are accepted there are as many for each of them. -/
structure DrawsEvenly (bound : Nat) : Prop where
  drawn_iff : ∀ number,
    (∃ generator, ((below bound).run generator).1 = number) ↔ number < bound
  accepted : ∀ generator number, (doubleWord.run generator).1.toNat ∈ wordsFor bound number →
    ((below bound).run generator).1 = number
  evenly : ∀ number < bound, (wordsFor bound number).card = acceptedWords bound

theorem drawsEvenly
    (positive : 0 < bound)
    (fits : bound < doubleWordSize) :
    DrawsEvenly bound :=
  { drawn_iff := exists_run_below_iff positive fits
    accepted := fun _ _ member => run_below_of_mem_wordsFor member
    evenly := fun _ small => card_wordsFor fits small }

end Draw

end Neurochip
