import Neurochip.Proofs.SynapseGroup.Step

namespace Neurochip

/-!
# A step sees only the spikes that arrive in it

Spikes that are still on their way are in the delay line of a synapse group, which
a step opens only where it is due.  The main statement says that groups which
differ in their delay lines make the same of a step in which the same synapses
are reached, random draws included, and again differ in their delay lines only.
-/

namespace SynapseGroup

/-- The group with other spikes on their way. -/
def withLine (group : SynapseGroup) (line : DelayLine Nat) : SynapseGroup :=
  { group with inFlight := line }

variable {group : SynapseGroup} {line : DelayLine Nat} {spikes otherSpikes : List Nat}

/-- Where the same spikes arrive, they reach the same synapses. -/
theorem reachedPositions_withLine
    (sameArriving : (group.withLine line).arriving otherSpikes = group.arriving spikes)
    (targets : Nat) :
    (group.withLine line).reachedPositions otherSpikes targets =
      group.reachedPositions spikes targets := by
  unfold reachedPositions
  rw [sameArriving]
  rfl

/-- What is delivered depends only on the synapses that are reached. -/
theorem transmit_withLine
    {targets : Nat}
    (sameReached : (group.withLine line).reachedPositions otherSpikes targets =
      group.reachedPositions spikes targets) :
    (group.withLine line).transmit otherSpikes targets =
      ((group.transmit spikes targets).1,
        (group.transmit spikes targets).2.withLine
          (line.schedule group.params.delay otherSpikes).drain.2) := by
  rw [transmit_eq, transmit_eq, sameReached]
  rfl

theorem learn_withLine : (group.withLine line).learn = group.learn.withLine line := by
  unfold learn
  cases present : group.rule with
  | none => simp only [withLine, present]
  | some rule =>
      simp only [withLine, present]
      rfl

/-- A step depends on the delay line only by the synapses that are reached. -/
theorem stepped_withLine
    {targets : Nat}
    (sameReached : (group.withLine line).reachedPositions otherSpikes targets =
      group.reachedPositions spikes targets)
    (targetSpikes : List Nat)
    (mode : RoundingMode) :
    (group.withLine line).stepped ⟨otherSpikes, targets, targetSpikes⟩ mode =
      ((group.stepped ⟨spikes, targets, targetSpikes⟩ mode).1,
        (group.stepped ⟨spikes, targets, targetSpikes⟩ mode).2.withLine
          (line.schedule group.params.delay otherSpikes).drain.2) := by
  have updates : ∀ (before : SynapseGroup) (rest : DelayLine Nat),
      (before.withLine rest).updateTraces targetSpikes mode =
        (before.updateTraces targetSpikes mode).withLine rest :=
    fun _ _ => rfl
  have commits : ∀ (before : SynapseGroup) (rest : DelayLine Nat),
      (before.withLine rest).commit mode =
        ((before.commit mode).1, (before.commit mode).2.withLine rest) :=
    fun _ _ => rfl
  rw [stepped, stepped, traced, traced]
  simp only [transmit_withLine sameReached, updates, learn_withLine, commits]

end SynapseGroup

end Neurochip
