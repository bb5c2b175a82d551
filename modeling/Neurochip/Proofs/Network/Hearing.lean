import Neurochip.Proofs.Network.Core
import Neurochip.Proofs.Network.History
import Neurochip.Proofs.SynapseGroup.Arrivals

namespace Neurochip

/-!
# A step depends on what is heard

Two networks may differ in the spikes on their way and in the spikes that are
about to set out.  If the same synapses are reached in a step, the networks make
the same of it, random draws included, and differ in their delay lines only.
-/

/-- The group without its last spikes. -/
def NeuronGroup.forgetful (group : NeuronGroup) : NeuronGroup :=
  { group with lastSpikes := [] }

namespace Network

/-- A group, and one with another delay line, of which the same synapses are reached in a step. -/
def HeardAlike (first second : Network) (time : Nat) (group changed : SynapseGroup) : Prop :=
  ∃ line, changed = group.withLine line ∧
    (group.withLine line).reachedPositions ((second.emit time).lastSpikes group.source)
        (first.groupSize group.target) =
      group.reachedPositions ((first.emit time).lastSpikes group.source)
        (first.groupSize group.target)

/-- Networks in the same states, of which the same synapses are reached in a step. -/
structure StepAlike (first second : Network) (time : Nat) : Prop where
  neurons : second.neuronGroups.map (·.forgetful) = first.neuronGroups.map (·.forgetful)
  rounding : second.rounding = first.rounding
  synapses : List.Forall₂ (HeardAlike first second time) first.synapseGroups second.synapseGroups

variable {first second : Network} {time : Nat}

theorem groupSize_of_forgetful
    (neurons : second.neuronGroups.map (·.forgetful) = first.neuronGroups.map (·.forgetful))
    (target : Nat) :
    second.groupSize target = first.groupSize target := by
  refine groupSize_congr (map_eq_of_map_eq (fun group _ other _ same => ?_) neurons) target
  show group.forgetful.size = other.forgetful.size
  rw [same]

namespace StepAlike

/-- All groups deliver the same to the same targets. -/
theorem transmissions_eq (alike : StepAlike first second time) :
    (second.emit time).transmissions.map (fun (deliveries, group) => (deliveries, group.target)) =
      (first.emit time).transmissions.map
        (fun (deliveries, group) => (deliveries, group.target)) := by
  rw [transmissions, transmissions, List.map_map, List.map_map]
  refine map_eq_of_forall₂ alike.synapses fun group changed heard => ?_
  obtain ⟨line, rfl, sameReached⟩ := heard
  refine Prod.ext ?_ rfl
  show ((group.withLine line).transmit ((second.emit time).lastSpikes group.source)
    (second.groupSize group.target)).1 = _
  rw [groupSize_of_forgetful alike.neurons, SynapseGroup.transmit_withLine sameReached]
  rfl

/-- The neuron groups are updated in the same way. -/
theorem neurons_next (alike : StepAlike first second time) :
    (second.next time).neuronGroups = (first.next time).neuronGroups := by
  apply List.ext_getElem?
  intro target
  rw [getElem?_neuronGroups_next, getElem?_neuronGroups_next, alike.rounding,
    deliveriesTo_congr alike.transmissions_eq]
  rcases getElem?_of_map_eq alike.neurons target with
    ⟨foundSecond, foundFirst⟩ | ⟨group, other, foundSecond, foundFirst, same⟩
  · rw [foundSecond, foundFirst]
  · rw [foundSecond, foundFirst]
    -- An update overwrites the last spikes and does not depend on them.
    generalize deliveriesTo target (first.emit time).transmissions = deliveries
    have updated : (group.forgetful.addInputs deliveries).update first.rounding =
        (other.forgetful.addInputs deliveries).update first.rounding := by
      rw [same]
    exact congrArg some updated

/-- A step makes the same of two groups of which the same synapses are reached, but for their delay
lines. -/
theorem steppedGroup_eq
    (alike : StepAlike first second time)
    {group changed : SynapseGroup}
    (heard : HeardAlike first second time group changed) :
    second.steppedGroup time changed =
      ((first.steppedGroup time group).1,
        (first.steppedGroup time group).2.withLine
          (second.steppedGroup time changed).2.inFlight) := by
  obtain ⟨line, rfl, sameReached⟩ := heard
  have targetSpikes : (second.halfway time).lastSpikes (.neuronGroup group.target) =
      (first.halfway time).lastSpikes (.neuronGroup group.target) := by
    simp only [lastSpikes]
    rw [show (second.halfway time).neuronGroups = (first.halfway time).neuronGroups from
      alike.neurons_next]
  have stimulus_eq : second.stimulus time (group.withLine line) =
      { spikes := (second.emit time).lastSpikes group.source
        targets := first.groupSize group.target
        targetSpikes := (first.halfway time).lastSpikes (.neuronGroup group.target) } := by
    rw [← groupSize_of_forgetful alike.neurons, ← targetSpikes]
    rfl
  rw [steppedGroup, stimulus_eq, alike.rounding,
    SynapseGroup.stepped_withLine sameReached]
  rfl

/-- The synapse groups still differ in their delay lines only. -/
theorem synapses_next (alike : StepAlike first second time) :
    List.Forall₂ (fun group changed => ∃ line, changed = group.withLine line)
      (first.next time).synapseGroups (second.next time).synapseGroups := by
  refine List.forall₂_map_left_iff.mpr (List.forall₂_map_right_iff.mpr
    (alike.synapses.imp fun group changed heard => ?_))
  have stepped := alike.steppedGroup_eq heard
  exact ⟨_, (Prod.ext_iff.mp stepped).2⟩

/-- As many spikes are transmitted. -/
theorem transmissions_reportOf_eq (alike : StepAlike first second time) :
    (second.reportOf time).transmissions = (first.reportOf time).transmissions := by
  have sums := congrArg (tally (·.1.length)) alike.transmissions_eq
  rwa [tally_map, tally_map] at sums

/-- As many weights are updated. -/
theorem weightUpdates_reportOf_eq (alike : StepAlike first second time) :
    (second.reportOf time).weightUpdates = (first.reportOf time).weightUpdates := by
  have counts : second.synapseGroups.map (fun group => (second.steppedGroup time group).1) =
      first.synapseGroups.map fun group => (first.steppedGroup time group).1 :=
    map_eq_of_forall₂ alike.synapses fun group changed heard => by
      rw [alike.steppedGroup_eq heard]
  have sums := congrArg (tally id) counts
  rwa [tally_map, tally_map] at sums

/-- If the sources emit the same as well, the reports of the step are the same. -/
theorem reportOf_eq
    (alike : StepAlike first second time)
    (emitted : (second.emit time).spikeSources.map (·.lastSpikes) =
      (first.emit time).spikeSources.map (·.lastSpikes)) :
    second.reportOf time = first.reportOf time := by
  have fired : (second.halfway time).firedSpikes = (first.halfway time).firedSpikes :=
    firedSpikes_congr (congrArg (List.map (·.lastSpikes)) alike.neurons_next)
  exact (StepReport.mk.injEq ..).mpr ⟨rfl, congrArg₂ (· ++ ·) (emittedSpikes_congr emitted) fired,
    alike.transmissions_reportOf_eq, alike.weightUpdates_reportOf_eq⟩

end StepAlike

end Network

end Neurochip
