import Neurochip.Proofs.NeuronGroup.Calls

namespace Neurochip

/-!
# What holds after every update of a neuron group

Counters, voltages, currents, collected inputs and the list of last spikes are
written in different places of an update, but they belong together.  The main
statement says how, for every update of a group that has been given input and
updated from its creation on: those neurons have spiked whose counter is at the
refractory period, a neuron that rests has no voltage, and no voltage is left at
or above the threshold, unless the threshold is zero and so is the voltage.
-/

namespace NeuronState

/-- What holds of a neuron that has only been updated. -/
structure Regular (params : NeuronParams) (state : NeuronState) : Prop where
  counter : state.refractory ≤ params.refractoryPeriod
  resting : 0 < state.refractory → state.voltage = 0
  below : state.voltage < (params.thresholdMantissa : Int) * 64 ∨ state.voltage = 0
  voltage : -8388608 ≤ state.voltage ∧ state.voltage ≤ 8388607
  current : -8388608 ≤ state.current ∧ state.current ≤ 8388607

variable {state : NeuronState} {params : NeuronParams}

theorem regular_rest : Regular params {} :=
  ⟨Nat.zero_le _, fun _ => rfl, .inr rfl, by decide, by decide⟩

/-- A neuron that integrates is regular afterwards, and has spiked exactly if its counter is at the
refractory period. -/
theorem Integrates.regular
    {mode : RoundingMode}
    {input : Int}
    {before after : NeuronState}
    {spikes : Prop}
    (integrates : Integrates params mode input before after spikes)
    (acceptable : params.Acceptable) :
    after.Regular params ∧ (spikes ↔ after.refractory = params.refractoryPeriod) := by
  obtain ⟨keptCurrent, keptVoltage, -, -, current, spikes_iff, spiked, silent⟩ := integrates
  have positive := acceptable.refractoryPeriod.1
  have currentFits : -8388608 ≤ after.current ∧ after.current ≤ 8388607 := by
    rw [current]
    exact FixedPoint.stateRange.contains_clamp _
  by_cases happened : spikes
  · obtain ⟨voltage, refractory⟩ := spiked happened
    exact
      ⟨{ counter := Nat.le_of_eq refractory
         resting := fun _ => voltage
         below := .inr voltage
         voltage := by rw [voltage]; decide
         current := currentFits },
        iff_of_true happened refractory⟩
  · obtain ⟨voltage, refractory⟩ := silent happened
    have belowThreshold := mt spikes_iff.mpr happened
    rw [← voltage, Int.not_le] at belowThreshold
    exact
      ⟨{ counter := by omega
         resting := fun rests => absurd refractory (Nat.ne_of_gt rests)
         below := .inl belowThreshold
         voltage := by rw [voltage]; exact FixedPoint.stateRange.contains_clamp _
         current := currentFits },
        iff_of_false happened (by omega)⟩

/-- A step leaves a regular neuron regular, and ends in a spike exactly if the counter is at the
refractory period afterwards. -/
theorem Regular.update
    (regular : state.Regular params)
    (acceptable : params.Acceptable)
    (input : Int)
    (mode : RoundingMode)
    (generator : Generator) :
    ((state.update input params mode).run generator).1.1.Regular params ∧
      (((state.update input params mode).run generator).1.2 = true ↔
        ((state.update input params mode).run generator).1.1.refractory =
          params.refractoryPeriod) := by
  rcases Nat.lt_or_ge 1 state.refractory with waiting | ready
  · obtain ⟨counter, resting, below, voltage, current⟩ := regular
    rw [update_of_waiting waiting, Draw.run_pure]
    refine ⟨⟨?_, fun _ => resting (by omega), below, voltage, current⟩, ?_⟩
    · exact Nat.le_trans (Nat.sub_le _ _) counter
    · -- The counter has just gone down, so it is not at the refractory period any more.
      exact iff_of_false Bool.false_ne_true (by dsimp only; omega)
  · exact (integrates_update acceptable ready input mode generator).regular acceptable

end NeuronState

namespace NeuronGroup

variable {group : NeuronGroup} {params : NeuronParams} {size : Nat}

/-- What holds of a group after every update. -/
structure Regular (params : NeuronParams) (size : Nat) (group : NeuronGroup) : Prop where
  frame : group.params = params ∧ group.states.length = size
  increasing : group.lastSpikes.Pairwise (· < ·)
  mem_lastSpikes_iff : ∀ neuron, neuron ∈ group.lastSpikes ↔
    ∃ state, group.states[neuron]? = some state ∧ state.refractory = params.refractoryPeriod
  states : ∀ state ∈ group.states, state.Regular params
  noInput : group.input = Array.replicate size 0

/-- Neurons that have spiked are listed in increasing order. -/
theorem pairwise_spiking (updated : List (NeuronState × Bool)) :
    (spiking updated).Pairwise (· < ·) := by
  rw [spiking, List.pairwise_filterMap]
  refine (pairwise_zipIdx updated).imp fun {first second} before lower low upper high => ?_
  obtain ⟨⟨_, firstSpiked⟩, firstIndex⟩ := first
  obtain ⟨⟨_, secondSpiked⟩, secondIndex⟩ := second
  cases firstSpiked <;> cases secondSpiked <;> simp_all

/-- An update of regular neurons leaves a regular group. -/
theorem regular_update
    (framed : group.Framed params size)
    (acceptable : params.Acceptable)
    (regular : ∀ state ∈ group.states, state.Regular params)
    (mode : RoundingMode) :
    (group.update mode).Regular params size := by
  obtain ⟨sameParams, sameSize⟩ := Prod.mk.inj (framed.perform (.update mode)).frame
  have updated : ∀ result ∈ ((group.updatedNeurons mode).run group.generator).1,
      result.1.Regular params ∧ (result.2 = true ↔ result.1.refractory = params.refractoryPeriod) := by
    have given : group.params = params := congrArg Prod.fst framed.frame
    rw [updatedNeurons, given]
    refine Draw.forall_mem_run_mapM _ ?_ group.generator
    rintro ⟨state, input⟩ member generator
    exact (regular state (List.of_mem_zip member).1).update acceptable input mode generator
  refine
    { frame := ⟨sameParams, sameSize⟩
      increasing := pairwise_spiking _
      mem_lastSpikes_iff := ?_
      states := ?_
      noInput := ?_ }
  · intro neuron
    rw [mem_lastSpikes_update, update_eq]
    simp only [List.getElem?_map, Option.map_eq_some_iff]
    constructor
    · rintro ⟨state, place⟩
      exact ⟨state, ⟨_, place, rfl⟩, (updated _ (List.mem_of_getElem? place)).2.mp rfl⟩
    · rintro ⟨_, ⟨⟨state, spiked⟩, place, rfl⟩, counter⟩
      obtain rfl : spiked = true := (updated _ (List.mem_of_getElem? place)).2.mpr counter
      exact ⟨state, place⟩
  · intro state member
    rw [update_eq] at member
    obtain ⟨result, drawn, rfl⟩ := List.mem_map.mp member
    exact (updated result drawn).1
  · have emptied := framed.fitted.atRest_update mode
    rwa [AtRest, show (group.update mode).size = size from sameSize] at emptied

/-- Calls that restore nothing leave regular neurons regular. -/
theorem regular_performAll?
    {after : NeuronGroup}
    {calls : List Call}
    (unrestored : ∀ states, Call.restore states ∉ calls)
    (framed : group.Framed params size)
    (acceptable : params.Acceptable)
    (regular : ∀ state ∈ group.states, state.Regular params)
    (answered : group.performAll? calls = some after) :
    after.Framed params size ∧ ∀ state ∈ after.states, state.Regular params := by
  refine performAll?_induction
    (fun group => group.Framed params size ∧ ∀ state ∈ group.states, state.Regular params)
    ?_ ⟨framed, regular⟩ answered
  rintro call member before ⟨framedBefore, regularBefore⟩
  refine ⟨framedBefore.perform call, ?_⟩
  cases call with
  | input delivery => exact regularBefore
  | update mode => exact (regular_update framedBefore acceptable regularBefore mode).states
  | restore states => exact absurd member (unrestored states)

/-- A group that has been created and then given input and updated is regular after every update
whose sums are words.  All sums are, as long as a register can be added to every input that is
collected on the way. -/
theorem regular_after_every_update
    {generator : Generator}
    {created : NeuronGroup}
    (accepted : create size params generator = .ok created)
    {calls : List Call}
    (unrestored : ∀ states, Call.restore states ∉ calls)
    (mode : RoundingMode) :
    (∀ after, created.performAll? (calls ++ [.update mode]) = some after →
      after.Regular params size) ∧
    (created.LeavesRoom calls →
      ∃ after, created.performAll? (calls ++ [.update mode]) = some after) := by
  obtain ⟨valid, rfl⟩ := create_eq_ok_iff.mp accepted
  have acceptable := NeuronParams.violations_eq_nil_iff.mp valid
  have framed : (atRest size params generator).Framed params size := framed_atRest generator
  have regular : ∀ state ∈ (atRest size params generator).states, state.Regular params := by
    intro state member
    rw [List.eq_of_mem_replicate member]
    exact NeuronState.regular_rest
  constructor
  · intro after answered
    obtain ⟨before, earlier, last⟩ := performAll?_concat_eq_some_iff.mp answered
    obtain ⟨framedBefore, regularBefore⟩ :=
      regular_performAll? unrestored framed acceptable regular earlier
    rw [← perform_of_perform? last]
    exact regular_update framedBefore acceptable regularBefore mode
  · intro leaves
    obtain ⟨before, earlier, room, inRange⟩ :=
      leaves.exists_performAll?_eq framed acceptable (inRange_atRest size params generator)
    have framedBefore := performAll?_induction (Framed params size)
      (fun call _ group framed => framed.perform call) framed earlier
    have given : before.params = params := congrArg Prod.fst framedBefore.frame
    have last := room.updateChecked_eq inRange (given ▸ acceptable) mode
    exact ⟨_, performAll?_concat_eq_some_iff.mpr
      ⟨before, earlier, perform?_update_eq_some_iff.mpr last⟩⟩

/-- The first of two neurons has spiked in the first of two updates and rests in the second. -/
theorem regular_after_every_update_resting :
    ∃ created after,
      create 2 { refractoryPeriod := 3 } (.ofSeed 0) = .ok created ∧
      (∀ states, Call.restore states ∉ [.input ⟨0, 7000⟩, .update .towardZero, .input ⟨1, -7⟩]) ∧
      created.LeavesRoom [.input ⟨0, 7000⟩, .update .towardZero, .input ⟨1, -7⟩] ∧
      created.performAll? [.input ⟨0, 7000⟩, .update .towardZero, .input ⟨1, -7⟩,
        .update .towardZero] = some after ∧
      after.Regular { refractoryPeriod := 3 } 2 := by
  have accepted := create_eq_ok_iff.mpr
    ⟨(by decide : ({ refractoryPeriod := 3 } : NeuronParams).violations [] = []),
      (rfl : atRest 2 _ (.ofSeed 0) = _)⟩
  have unrestored : ∀ states : List NeuronState,
      Call.restore states ∉ [.input ⟨0, 7000⟩, .update .towardZero, .input ⟨1, -7⟩] := by
    simp
  have leaves : (atRest 2 { refractoryPeriod := 3 } (.ofSeed 0)).LeavesRoom
      [.input ⟨0, 7000⟩, .update .towardZero, .input ⟨1, -7⟩] := by
    refine ⟨by decide, ?_, by decide, by simp, by decide, ?_, (by decide : HasRoom _)⟩
    · rintro _ ⟨⟩
      decide
    · rintro _ ⟨⟩
      decide
  obtain ⟨regular, answers⟩ := regular_after_every_update accepted unrestored .towardZero
  obtain ⟨after, answered⟩ := answers leaves
  exact ⟨_, after, accepted, unrestored, leaves, answered, regular after answered⟩

end NeuronGroup

end Neurochip
