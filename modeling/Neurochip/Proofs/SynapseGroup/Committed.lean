import Neurochip.Proofs.SynapseGroup.Traced

namespace Neurochip

/-!
# Committing weight changes

Changes are committed one after the other, each with a draw of its own.  Where
no synapse has more than one pending change, the main statements say which
weight every synapse ends with and that the answered number is the number of
synapses whose weight is another one than before.
-/

/-- Limiting a mantissa to a word before it is brought into range makes no difference. -/
theorem Quantizer.quantize_clamp_int64 (quantizer : Quantizer) (mantissa : Int) :
    quantizer.quantize (Bounds.int64.clamp mantissa) = quantizer.quantize mantissa := by
  have same : quantizer.signMode.range.clamp (Bounds.int64.clamp mantissa) =
      quantizer.signMode.range.clamp mantissa := by
    apply Bounds.clamp_clamp <;> cases quantizer.signMode <;> decide
  rw [quantize, quantize, same]

namespace Synapse

/-- The synapse with another weight. -/
def withWeight (synapse : Synapse) (weight : Weight) : Synapse :=
  { synapse with weight := weight }

/-- A changed weight takes one draw, for rounding the change to the grid. -/
theorem run_changedWeight
    (synapse : Synapse)
    (quantizer : Quantizer)
    (mode : RoundingMode)
    (change : Int)
    (generator : Generator) :
    (synapse.changedWeight quantizer mode change).run generator =
      (quantizer.quantize
          (synapse.weight.mantissa +
            ((mode.roundToMultiple change quantizer.precision).run generator).1),
        ((mode.roundToMultiple change quantizer.precision).run generator).2) := by
  rw [changedWeight, Draw.run_bind, Draw.run_pure, Quantizer.quantize_clamp_int64]

end Synapse

namespace SynapseGroup

/-- Changes rounded to the grid of weights, drawn for in order. -/
def roundedChanges
    (quantizer : Quantizer)
    (mode : RoundingMode)
    (changes : List PendingChange) :
    Draw (List Int) :=
  (changes.map PendingChange.change).mapM fun change =>
    mode.roundToMultiple change quantizer.precision

/-- All changes are those of existing synapses. -/
def Inside (changes : List PendingChange) (synapses : Array Synapse) : Prop :=
  ∀ pending ∈ changes, pending.position < synapses.size

variable {quantizer : Quantizer} {mode : RoundingMode}

/-- The first change is committed before the others. -/
theorem run_commitAll_cons
    (pending : PendingChange)
    (rest : List PendingChange)
    {synapses : Array Synapse}
    {synapse : Synapse}
    (found : synapses[pending.position]? = some synapse)
    (different : Nat)
    (generator : Generator) :
    let rounded := (mode.roundToMultiple pending.change quantizer.precision).run generator
    let weight := quantizer.quantize (synapse.weight.mantissa + rounded.1)
    (commitAll quantizer mode (pending :: rest) synapses different).run generator =
      (commitAll quantizer mode rest
        (synapses.modify pending.position (·.withWeight weight))
        (if weight = synapse.weight then different else different + 1)).run rounded.2 := by
  simp only [commitAll, found, Draw.run_bind, Synapse.run_changedWeight]
  rfl

/-- Draws for the first rounded change come before those for the others. -/
theorem run_roundedChanges_cons
    (pending : PendingChange)
    (rest : List PendingChange)
    (generator : Generator) :
    let rounded := (mode.roundToMultiple pending.change quantizer.precision).run generator
    (roundedChanges quantizer mode (pending :: rest)).run generator =
      (rounded.1 :: ((roundedChanges quantizer mode rest).run rounded.2).1,
        ((roundedChanges quantizer mode rest).run rounded.2).2) :=
  Draw.run_mapM_cons _ _ _ _

/-- Changes stay inside when one synapse gets another weight. -/
theorem Inside.tail
    {pending : PendingChange}
    {rest : List PendingChange}
    {synapses : Array Synapse}
    (inside : Inside (pending :: rest) synapses)
    (change : Synapse → Synapse) :
    Inside rest (synapses.modify pending.position change) := by
  intro other member
  rw [Array.size_modify]
  exact inside other (List.mem_cons_of_mem _ member)

/-- There is a synapse for the first change. -/
theorem Inside.head
    {pending : PendingChange}
    {rest : List PendingChange}
    {synapses : Array Synapse}
    (inside : Inside (pending :: rest) synapses) :
    ∃ synapse, synapses[pending.position]? = some synapse :=
  ⟨_, Array.getElem?_eq_getElem (inside pending List.mem_cons_self)⟩

/-- A synapse without a pending change keeps its weight. -/
theorem getElem?_commitAll_of_not_mem
    {changes : List PendingChange}
    {synapses : Array Synapse}
    (inside : Inside changes synapses)
    {position : Nat}
    (absent : position ∉ changes.map PendingChange.position)
    (different : Nat)
    (generator : Generator) :
    ((commitAll quantizer mode changes synapses different).run generator).1.1[position]? =
      synapses[position]? := by
  induction changes generalizing synapses different generator with
  | nil => rfl
  | cons pending rest inductionHypothesis =>
      obtain ⟨synapse, found⟩ := inside.head
      rw [List.map_cons, List.mem_cons, not_or] at absent
      rw [run_commitAll_cons pending rest found,
        inductionHypothesis (inside.tail _) absent.2, Array.getElem?_modify,
        if_neg (Ne.symm absent.1)]

/-- The changes that are committed before that of a position. -/
def changesBefore (position : Nat) (changes : List PendingChange) : List PendingChange :=
  changes.takeWhile fun pending => decide (pending.position ≠ position)

/-- A pending change, rounded by the draw that follows those for the changes before it. -/
def roundedChange
    (quantizer : Quantizer)
    (mode : RoundingMode)
    (changes : List PendingChange)
    (pending : PendingChange)
    (generator : Generator) :
    Int :=
  let before := (roundedChanges quantizer mode (changesBefore pending.position changes)).run
    generator
  ((mode.roundToMultiple pending.change quantizer.precision).run before.2).1

/-- A synapse with one pending change gets the weight for its mantissa and the rounded change. -/
theorem getElem?_commitAll
    {changes : List PendingChange}
    {synapses : Array Synapse}
    (inside : Inside changes synapses)
    (once : (changes.map PendingChange.position).Nodup)
    {pending : PendingChange}
    (member : pending ∈ changes)
    (different : Nat)
    (generator : Generator) :
    ((commitAll quantizer mode changes synapses different).run generator).1.1[pending.position]? =
      synapses[pending.position]?.map fun synapse =>
        synapse.withWeight (quantizer.quantize
          (synapse.weight.mantissa + roundedChange quantizer mode changes pending generator)) := by
  induction changes generalizing synapses different generator with
  | nil => cases member
  | cons first rest inductionHypothesis =>
      obtain ⟨synapse, found⟩ := inside.head
      rw [List.map_cons, List.nodup_cons] at once
      rw [run_commitAll_cons first rest found]
      rcases List.mem_cons.mp member with rfl | later
      · have first : changesBefore pending.position (pending :: rest) = [] := by
          simp [changesBefore]
        rw [getElem?_commitAll_of_not_mem (inside.tail _) once.1, Array.getElem?_modify,
          if_pos rfl, found, roundedChange, first]
        rfl
      · -- The first change is at another position, but what it draws comes before.
        have other : first.position ≠ pending.position := fun same =>
          once.1 (same ▸ List.mem_map_of_mem later)
        have before : changesBefore pending.position (first :: rest) =
            first :: changesBefore pending.position rest := by
          simp [changesBefore, other]
        rw [inductionHypothesis (inside.tail _) once.2 later, Array.getElem?_modify,
          if_neg other, roundedChange, roundedChange, before, run_roundedChanges_cons]

/-- Whether the weight at a position is another one in one array than in the other. -/
def differsAt (before after : Array Synapse) (position : Nat) : Bool :=
  decide (before[position]?.map Synapse.weight ≠ after[position]?.map Synapse.weight)

theorem differsAt_modify_of_ne
    {changed position : Nat}
    (other : changed ≠ position)
    (synapses after : Array Synapse)
    (change : Synapse → Synapse) :
    differsAt (synapses.modify changed change) after position =
      differsAt synapses after position := by
  simp [differsAt, Array.getElem?_modify, other]

/-- The number of changes that make a weight different is the number of positions at which the
weights differ in the end. -/
theorem different_commitAll
    {changes : List PendingChange}
    {synapses : Array Synapse}
    (inside : Inside changes synapses)
    (once : (changes.map PendingChange.position).Nodup)
    (different : Nat)
    (generator : Generator) :
    ((commitAll quantizer mode changes synapses different).run generator).1.2 =
      different + (changes.map PendingChange.position).countP
        (differsAt synapses
          ((commitAll quantizer mode changes synapses different).run generator).1.1) := by
  induction changes generalizing synapses different generator with
  | nil => simp [commitAll]
  | cons first rest inductionHypothesis =>
      obtain ⟨synapse, found⟩ := inside.head
      rw [List.map_cons, List.nodup_cons] at once
      rw [run_commitAll_cons first rest found, List.map_cons, List.countP_cons]
      -- Neither the new weight nor the generator after it matters for what is counted.
      generalize quantizer.quantize _ = weight
      generalize ((mode.roundToMultiple first.change quantizer.precision).run generator).2 = next
      have here := @getElem?_commitAll_of_not_mem quantizer mode _ _
        (inside.tail (·.withWeight weight)) _ once.1
        (if weight = synapse.weight then different else different + 1) next
      rw [inductionHypothesis (inside.tail (·.withWeight weight)) once.2]
      generalize final :
        ((commitAll quantizer mode rest
          (synapses.modify first.position (·.withWeight weight))
          (if weight = synapse.weight then different else different + 1)).run next).1.1 = after
        at here ⊢
      have later : ∀ position ∈ rest.map PendingChange.position,
          differsAt (synapses.modify first.position (·.withWeight weight)) after position = true ↔
            differsAt synapses after position = true := by
        intro position member
        have other : first.position ≠ position := fun same => once.1 (same ▸ member)
        rw [differsAt_modify_of_ne other]
      have headDiffers :
          differsAt synapses after first.position = decide (synapse.weight ≠ weight) := by
        simp [differsAt, here, Array.getElem?_modify, found, Synapse.withWeight]
      rw [List.countP_congr later, headDiffers]
      by_cases same : weight = synapse.weight
      · simp [same]
      · simp [same, Ne.symm same]
        omega

end SynapseGroup

end Neurochip
