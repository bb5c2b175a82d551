import Mathlib.Data.List.Nodup
import Neurochip.Proofs.Random.CutOffs

namespace Neurochip.Draw

/-!
# Samples of distinct indices

Shuffling moves the indices of a list of all of them, and Floyd's method adds
to distinct indices below some bound another one below the next bound: the
drawn one, or that bound itself where the drawn one is already there.  The main
statement says that both ways answer as many distinct indices as were wanted,
whatever words the generator gives.
-/

variable {bound length amount largest drawn : Nat} {chosen : List Nat}

theorem run_scaleWord_lt
    (positive : 0 < bound)
    (limit refusals : Nat)
    (generator : Generator) :
    ((scaleWord bound limit refusals).run generator).1 < bound :=
  run_scale_lt positive (fun generator => (word.run generator).1.toNat_lt) limit refusals generator

theorem run_indexBelow_lt
    (positive : 0 < bound)
    (generator : Generator) :
    ((indexBelow bound).run generator).1 < bound :=
  run_scaleWord_lt positive _ _ generator

/-- A draw from a range stays in it. -/
theorem contains_run_within (range : Bounds) (generator : Generator) :
    range.Contains ((within range).run generator).1 := by
  have ordered := range.ordered
  have positive : 0 < (range.upper - range.lower + 1).toNat := by omega
  have below := run_scaleWord_lt positive
    (wordSize - 1 - (wordSize - (range.upper - range.lower + 1).toNat) %
      (range.upper - range.lower + 1).toNat) maxRefusals generator
  rw [within, run_bind, run_pure]
  constructor <;> dsimp only <;> omega

/-- As many distinct indices below a bound as are wanted. -/
structure IsSample (length amount : Nat) (indices : List Nat) : Prop where
  size : indices.length = amount
  distinct : indices.Nodup
  below : ∀ index ∈ indices, index < length

/-- An exchange moves items, also where a position is not there. -/
theorem swapIfInBounds_perm (items : Array Nat) (first second : Nat) :
    (items.swapIfInBounds first second).toList.Perm items.toList := by
  rw [Array.swapIfInBounds_def]
  split
  · split
    · exact (Array.swap_perm _ _).toList
    · exact .rfl
  · exact .rfl

/-- Shuffling moves items. -/
theorem run_shuffleFront_perm
    (items : Array Nat)
    (front amount : Nat)
    (generator : Generator) :
    ((shuffleFront items front amount).run generator).1.toList.Perm items.toList := by
  induction amount generalizing items front generator with
  | zero => exact .rfl
  | succ amount inductionHypothesis =>
      rw [shuffleFront, run_bind]
      exact (inductionHypothesis _ _ _).trans (swapIfInBounds_perm _ _ _)

theorem isSample_run_sampleByShuffle
    (fits : amount ≤ length)
    (generator : Generator) :
    IsSample length amount ((sampleByShuffle length amount).run generator).1 := by
  have moved := run_shuffleFront_perm (Array.range length) 0 amount generator
  rw [Array.toList_range] at moved
  rw [sampleByShuffle, run_bind, run_pure]
  refine ⟨?_, ?_, fun index member => ?_⟩
  · rw [List.length_take, moved.length_eq, List.length_range]
    exact Nat.min_eq_left fits
  · exact (moved.nodup_iff.mpr List.nodup_range).sublist (List.take_sublist _ _)
  · exact List.mem_range.mp (moved.mem_iff.mp (List.mem_of_mem_take member))

/-- One index is added, wherever it is put. -/
theorem insertDrawn_perm (chosen : List Nat) (drawn largest : Nat) :
    (insertDrawn chosen drawn largest).Perm
      ((if drawn ∈ chosen then largest else drawn) :: chosen) := by
  induction chosen with
  | nil => simp [insertDrawn]
  | cons index rest inductionHypothesis =>
      rw [insertDrawn]
      split
      · rename_i found
        simp [found]
      · rename_i different
        have elsewhere : drawn ∈ index :: rest ↔ drawn ∈ rest := by simp [Ne.symm different]
        simp only [elsewhere]
        exact (inductionHypothesis.cons index).trans (.swap _ _ _)

/-- One more index below the next bound: the drawn one, or the largest one, which is new because all
the others are below it. -/
theorem IsSample.insertDrawn
    (sample : IsSample largest amount chosen)
    (within : drawn < largest + 1) :
    IsSample (largest + 1) (amount + 1) (insertDrawn chosen drawn largest) := by
  have added := insertDrawn_perm chosen drawn largest
  refine ⟨?_, ?_, fun index member => ?_⟩
  · rw [added.length_eq, List.length_cons, sample.size]
  · rw [added.nodup_iff, List.nodup_cons]
    refine ⟨?_, sample.distinct⟩
    split
    · exact fun found => Nat.lt_irrefl _ (sample.below largest found)
    · assumption
  · rcases List.mem_cons.mp (added.mem_iff.mp member) with rfl | earlier
    · split <;> omega
    · exact Nat.lt_succ_of_lt (sample.below index earlier)

theorem IsSample.run_floyd
    {count : Nat}
    (sample : IsSample largest count chosen)
    (amount : Nat)
    (generator : Generator) :
    IsSample (largest + amount) (count + amount)
      ((floyd chosen (List.range' largest amount)).run generator).1 := by
  induction amount generalizing largest count chosen generator with
  | zero => exact sample
  | succ amount inductionHypothesis =>
      rw [List.range'_succ, floyd, run_bind, Nat.add_comm amount, ← Nat.add_assoc,
        ← Nat.add_assoc]
      exact inductionHypothesis
        (sample.insertDrawn (run_indexBelow_lt (Nat.succ_pos largest) generator)) _

theorem isSample_run_sampleByFloyd
    (fits : amount ≤ length)
    (generator : Generator) :
    IsSample length amount ((sampleByFloyd length amount).run generator).1 := by
  have none : IsSample (length - amount) 0 [] := ⟨rfl, List.nodup_nil, by simp⟩
  have sample := none.run_floyd amount generator
  rwa [Nat.sub_add_cancel fits, Nat.zero_add] at sample

/-- Both ways of sampling answer as many distinct indices as are wanted, or all there are. -/
theorem isSample_run_sample
    (length amount : Nat)
    (generator : Generator) :
    IsSample length (min amount length) ((sample length amount).run generator).1 := by
  have fits := Nat.min_le_right amount length
  unfold sample
  dsimp only
  split
  · exact isSample_run_sampleByShuffle fits generator
  · exact isSample_run_sampleByFloyd fits generator

end Neurochip.Draw
