import Neurochip.Proofs.NeuronGroup.Signs

namespace Neurochip

/-!
# Neurons rest after a spike

A spike sets a neuron's counter to the refractory period, and the neuron
integrates again in the update in which the counter has one step left.  The main
statement follows the updates of a group from its creation on: after a spike a
neuron is silent and keeps its current, whatever input it is given, until the
refractory period is over.  A neuron without a threshold therefore spikes in the
first update and then once in each period.
-/

/-- All that is delivered to a neuron. -/
def Delivery.total (neuron : Nat) (deliveries : List Delivery) : Int :=
  balance Delivery.amount
    (deliveries.filter fun delivery => decide (delivery.neuron = neuron))

/-- Deliveries that differ at most in what one neuron gets. -/
def Delivery.SameElsewhere (neuron : Nat) (deliveries others : List Delivery) : Prop :=
  (deliveries.filter fun delivery => decide (delivery.neuron ≠ neuron)) =
    others.filter fun delivery => decide (delivery.neuron ≠ neuron)

/-- All other neurons get the same. -/
theorem Delivery.SameElsewhere.total_eq
    {neuron other : Nat}
    {deliveries others : List Delivery}
    (same : SameElsewhere neuron deliveries others)
    (elsewhere : other ≠ neuron) :
    total other deliveries = total other others := by
  have kept : ∀ deliveries : List Delivery,
      (deliveries.filter fun delivery => decide (delivery.neuron = other)) =
        (deliveries.filter fun delivery => decide (delivery.neuron ≠ neuron)).filter
          fun delivery => decide (delivery.neuron = other) := by
    intro deliveries
    rw [List.filter_filter]
    refine List.filter_congr fun delivery _ => ?_
    by_cases here : delivery.neuron = other <;> simp [here, elsewhere]
  rw [total, total, kept deliveries, kept others, same]

namespace NeuronState

variable {state : NeuronState} {params : NeuronParams} {mode : RoundingMode}

/-- A step in which a neuron integrates: its current decays and takes up the input, its voltage
decays and takes up the current, and it spikes exactly if the voltage reaches the threshold. -/
def Integrates
    (params : NeuronParams)
    (mode : RoundingMode)
    (input : Int)
    (before after : NeuronState)
    (spikes : Prop) :
    Prop :=
  ∃ keptCurrent keptVoltage,
    (∃ generator,
      ((mode.decay before.current params.decayCurrent).run generator).1 = keptCurrent) ∧
    (∃ generator,
      ((mode.decay before.voltage params.decayVoltage).run generator).1 = keptVoltage) ∧
    after.current = FixedPoint.stateRange.clamp (keptCurrent + input) ∧
    (spikes ↔ (params.thresholdMantissa : Int) * 64 ≤
      FixedPoint.stateRange.clamp (keptVoltage + after.current)) ∧
    (spikes → after.voltage = 0 ∧ after.refractory = params.refractoryPeriod) ∧
    (¬ spikes →
      after.voltage = FixedPoint.stateRange.clamp (keptVoltage + after.current) ∧
      after.refractory = 0)

/-- While more than one step is left, a neuron only counts down. -/
theorem update_of_waiting
    (waiting : 1 < state.refractory)
    (input : Int)
    (params : NeuronParams)
    (mode : RoundingMode) :
    state.update input params mode =
      pure ({ state with refractory := state.refractory - 1 }, false) :=
  if_pos waiting

/-- With at most one step left, a neuron integrates. -/
theorem integrates_update
    (acceptable : params.Acceptable)
    (ready : state.refractory ≤ 1)
    (input : Int)
    (mode : RoundingMode)
    (generator : Generator) :
    Integrates params mode input state
      ((state.update input params mode).run generator).1.1
      (((state.update input params mode).run generator).1.2 = true) := by
  have threshold : params.threshold = (params.thresholdMantissa : Int) * 64 :=
    acceptable.threshold_eq
  unfold update
  rw [if_neg (Nat.not_lt.mpr ready), Draw.run_bind]
  generalize current : (mode.decay state.current params.decayCurrent).run generator = kept
  obtain ⟨keptCurrent, next⟩ := kept
  refine ⟨keptCurrent, ((mode.decay state.voltage params.decayVoltage).run next).1,
    ⟨generator, congrArg Prod.fst current⟩, ⟨next, rfl⟩, ?_⟩
  simp only [integrate, Draw.run_bind, ← threshold]
  split
  · rename_i reached
    simpa using reached
  · rename_i below
    simpa using below

/-- Without a threshold a neuron that is only excited spikes whenever it integrates. -/
theorem Integrates.spikes
    {input : Int}
    {before after : NeuronState}
    {spikes : Prop}
    (integrates : Integrates params mode input before after spikes)
    (signed : before.Signed .excitatory)
    (acceptable : params.Acceptable)
    (noThreshold : params.thresholdMantissa = 0)
    (nonnegative : 0 ≤ input) :
    spikes := by
  obtain ⟨_, _, ⟨_, rfl⟩, ⟨_, rfl⟩, current, spikes_iff, -, -⟩ := integrates
  have zeroInside : FixedPoint.stateRange.Contains 0 := by decide
  have admitted := SignMode.admits_excitatory_iff.mpr nonnegative
  have keptCurrent := signed.current.decay mode acceptable.decayCurrent
  have keptVoltage := signed.voltage.decay mode acceptable.decayVoltage
  have taken : SignMode.Admits .excitatory after.current := by
    rw [current]
    exact ((keptCurrent _).add admitted).clamp zeroInside
  refine spikes_iff.mpr ?_
  rw [noThreshold]
  exact SignMode.admits_excitatory_iff.mp (((keptVoltage _).add taken).clamp zeroInside)

end NeuronState

namespace NeuronGroup

variable
  {group : NeuronGroup} {neuron : Nat} {state : NeuronState}

/-- The neurons that spiked in an update are those whose step ended in a spike. -/
theorem mem_lastSpikes_update {mode : RoundingMode} :
    neuron ∈ (group.update mode).lastSpikes ↔
      ∃ state,
        ((group.updatedNeurons mode).run group.generator).1[neuron]? = some (state, true) := by
  rw [update_eq]
  simp only [spiking, List.mem_filterMap, List.mem_zipIdx_iff_getElem?]
  constructor
  · rintro ⟨⟨⟨state, spiked⟩, position⟩, place, chosen⟩
    cases spiked <;> simp at chosen
    exact ⟨state, chosen ▸ place⟩
  · rintro ⟨state, place⟩
    exact ⟨((state, true), neuron), place, by simp⟩

/-- Only neurons of the group spike. -/
theorem lt_size_of_spike
    {mode : RoundingMode}
    (spike : neuron ∈ (group.update mode).lastSpikes) :
    neuron < (group.update mode).size := by
  obtain ⟨state, drawn⟩ := mem_lastSpikes_update.mp spike
  rw [size, update_eq, List.length_map]
  exact (List.getElem?_eq_some_iff.mp drawn).1

/-- One update of a group after some deliveries. -/
def turn (group : NeuronGroup) (deliveries : List Delivery) (mode : RoundingMode) :
    NeuronGroup :=
  (group.addInputs deliveries).update mode

theorem AtRest.turn
    (atRest : group.AtRest)
    (deliveries : List Delivery)
    (mode : RoundingMode) :
    (group.turn deliveries mode).AtRest :=
  (atRest.fitted.addInputs deliveries).atRest_update mode

theorem AtRest.frame_turn
    (atRest : group.AtRest)
    (deliveries : List Delivery)
    (mode : RoundingMode) :
    (group.turn deliveries mode).frame = group.frame :=
  (atRest.fitted.addInputs deliveries).frame_update mode

/-- A group at rest hands each neuron what is delivered to it. -/
theorem AtRest.getElem?_zip_addInputs
    (atRest : group.AtRest)
    (deliveries : List Delivery)
    (neuron : Nat) :
    ((group.addInputs deliveries).states.zip (group.addInputs deliveries).input.toList)[neuron]? =
      group.states[neuron]?.map fun state => (state, Delivery.total neuron deliveries) := by
  have input : (group.addInputs deliveries).input.toList[neuron]? =
      if neuron < group.states.length then some (Delivery.total neuron deliveries) else none := by
    rw [Array.getElem?_toList, addInputs, Delivery.getElem?_addAll,
      show group.input = _ from atRest, Array.getElem?_replicate, size]
    split <;> simp [Delivery.total]
  rw [List.zip, List.getElem?_zipWith, input, addInputs]
  cases place : group.states[neuron]? with
  | none => rfl
  | some state => rw [if_pos (List.getElem?_eq_some_iff.mp place).1]; rfl

/-- An update makes a step of each neuron with what was delivered to it. -/
theorem AtRest.exists_step
    (atRest : group.AtRest)
    (place : group.states[neuron]? = some state)
    (deliveries : List Delivery)
    (mode : RoundingMode) :
    ∃ generator,
      (group.turn deliveries mode).states[neuron]? =
        some ((state.update (Delivery.total neuron deliveries) group.params mode).run
          generator).1.1 ∧
      (neuron ∈ (group.turn deliveries mode).lastSpikes ↔
        ((state.update (Delivery.total neuron deliveries) group.params mode).run
          generator).1.2 = true) := by
  have handed := atRest.getElem?_zip_addInputs deliveries neuron
  rw [place, Option.map_some] at handed
  obtain ⟨generator, drawn⟩ : ∃ generator,
      (((group.addInputs deliveries).updatedNeurons mode).run group.generator).1[neuron]? =
        some ((state.update (Delivery.total neuron deliveries) group.params mode).run
          generator).1 :=
    Draw.exists_getElem?_run_mapM _ handed group.generator
  refine ⟨generator, ?_, ?_⟩
  · rw [NeuronGroup.turn, update_eq, List.getElem?_map]
    exact congrArg (Option.map Prod.fst) drawn
  · rw [NeuronGroup.turn, mem_lastSpikes_update]
    refine (exists_congr fun after => Eq.congr_left drawn).trans ?_
    simp [Prod.ext_iff]

/-- A neuron with more than one step left counts down and is silent. -/
theorem AtRest.turn_of_waiting
    (atRest : group.AtRest)
    (place : group.states[neuron]? = some state)
    (waiting : 1 < state.refractory)
    (deliveries : List Delivery)
    (mode : RoundingMode) :
    (group.turn deliveries mode).states[neuron]? =
      some { state with refractory := state.refractory - 1 } ∧
    neuron ∉ (group.turn deliveries mode).lastSpikes := by
  obtain ⟨generator, after, spiked⟩ := atRest.exists_step place deliveries mode
  rw [NeuronState.update_of_waiting waiting] at after spiked
  exact ⟨after, fun spike => by cases spiked.mp spike⟩

/-- A neuron with at most one step left integrates what was delivered to it. -/
theorem AtRest.turn_of_ready
    (atRest : group.AtRest)
    (acceptable : group.params.Acceptable)
    (place : group.states[neuron]? = some state)
    (ready : state.refractory ≤ 1)
    (deliveries : List Delivery)
    (mode : RoundingMode) :
    ∃ after, (group.turn deliveries mode).states[neuron]? = some after ∧
      NeuronState.Integrates group.params mode (Delivery.total neuron deliveries) state after
        (neuron ∈ (group.turn deliveries mode).lastSpikes) := by
  obtain ⟨generator, after, spiked⟩ := atRest.exists_step place deliveries mode
  refine ⟨_, after, ?_⟩
  rw [spiked]
  exact NeuronState.integrates_update acceptable ready _ mode generator

/-- After a spike a neuron has no voltage, and its whole refractory period is left. -/
theorem AtRest.state_of_spike
    (atRest : group.AtRest)
    (acceptable : group.params.Acceptable)
    {deliveries : List Delivery}
    {mode : RoundingMode}
    (spike : neuron ∈ (group.turn deliveries mode).lastSpikes) :
    ∃ after, (group.turn deliveries mode).states[neuron]? = some after ∧
      after.voltage = 0 ∧ after.refractory = group.params.refractoryPeriod := by
  have sameSize : (group.turn deliveries mode).size = group.size :=
    congrArg Prod.snd (atRest.frame_turn deliveries mode)
  have inside : neuron < group.size := sameSize ▸ lt_size_of_spike spike
  have place : group.states[neuron]? = some group.states[neuron] :=
    List.getElem?_eq_getElem inside
  rcases Nat.lt_or_ge 1 group.states[neuron].refractory with waiting | ready
  · exact absurd spike (atRest.turn_of_waiting place waiting deliveries mode).2
  · obtain ⟨after, placeAfter, _, _, _, _, _, _, reset, _⟩ :=
      atRest.turn_of_ready acceptable place ready deliveries mode
    exact ⟨after, placeAfter, reset spike⟩

/-- Deliveries to a neuron with more than one step left change nothing. -/
theorem AtRest.turn_congr
    (atRest : group.AtRest)
    (place : group.states[neuron]? = some state)
    (waiting : 1 < state.refractory)
    {deliveries others : List Delivery}
    (same : Delivery.SameElsewhere neuron deliveries others)
    (mode : RoundingMode) :
    group.turn others mode = group.turn deliveries mode := by
  have draws : (group.addInputs others).updatedNeurons mode =
      (group.addInputs deliveries).updatedNeurons mode := by
    refine Draw.mapM_congr (List.ext_getElem? fun position => ?_)
    rw [List.getElem?_map, List.getElem?_map, atRest.getElem?_zip_addInputs,
      atRest.getElem?_zip_addInputs, Option.map_map, Option.map_map]
    by_cases here : position = neuron
    · subst here
      simp [place, NeuronState.update_of_waiting waiting]
    · rw [same.total_eq here]
  rw [NeuronGroup.turn, NeuronGroup.turn, update_eq, update_eq, draws]
  simp [addInputs]

/-- A group after some updates, each with its deliveries and its mode.  They are numbered from
one on, like the updates. -/
def updates (group : NeuronGroup) (inputs : Nat → List Delivery) (modes : Nat → RoundingMode) :
    Nat → NeuronGroup
  | 0 => group
  | number + 1 =>
      (group.updates inputs modes number).turn (inputs (number + 1)) (modes (number + 1))

/-- What the refractory period means for a neuron that has spiked in some update. -/
structure Rests
    (group : NeuronGroup)
    (inputs : Nat → List Delivery)
    (modes : Nat → RoundingMode)
    (neuron spike : Nat) : Prop where
  silent : ∀ number, spike < number → number < spike + group.params.refractoryPeriod →
    neuron ∉ (group.updates inputs modes number).lastSpikes
  /-- The voltage is zero and the current is what it was after the spike. -/
  frozen : ∃ current, ∀ number, spike ≤ number →
    number < spike + group.params.refractoryPeriod →
    ∃ state, (group.updates inputs modes number).states[neuron]? = some state ∧
      state.voltage = 0 ∧ state.current = current
  /-- What is delivered to the neuron makes no difference to any neuron at any time. -/
  deaf : ∀ others : Nat → List Delivery,
    (∀ number, spike < number → number < spike + group.params.refractoryPeriod →
      Delivery.SameElsewhere neuron (inputs number) (others number)) →
    (∀ number, ¬ (spike < number ∧ number < spike + group.params.refractoryPeriod) →
      others number = inputs number) →
    ∀ number, group.updates others modes number = group.updates inputs modes number
  resumes : ∃ before after,
    (group.updates inputs modes (spike + group.params.refractoryPeriod - 1)).states[neuron]? =
      some before ∧
    (group.updates inputs modes (spike + group.params.refractoryPeriod)).states[neuron]? =
      some after ∧
    NeuronState.Integrates group.params (modes (spike + group.params.refractoryPeriod))
      (Delivery.total neuron (inputs (spike + group.params.refractoryPeriod))) before after
      (neuron ∈ (group.updates inputs modes (spike + group.params.refractoryPeriod)).lastSpikes)

variable {inputs : Nat → List Delivery} {modes : Nat → RoundingMode}

theorem AtRest.updates (atRest : group.AtRest) (number : Nat) :
    (group.updates inputs modes number).AtRest := by
  induction number with
  | zero => exact atRest
  | succ number inductionHypothesis => exact inductionHypothesis.turn _ _

theorem AtRest.frame_updates (atRest : group.AtRest) (number : Nat) :
    (group.updates inputs modes number).frame = group.frame := by
  induction number with
  | zero => rfl
  | succ number inductionHypothesis =>
      exact (atRest.updates number).frame_turn _ _ |>.trans inductionHypothesis

theorem AtRest.params_updates (atRest : group.AtRest) (number : Nat) :
    (group.updates inputs modes number).params = group.params :=
  congrArg Prod.fst (atRest.frame_updates number)

/-- While more than one step is left, each update takes one step off. -/
theorem AtRest.counts_down
    (atRest : group.AtRest)
    {start : Nat}
    (place : (group.updates inputs modes start).states[neuron]? = some state)
    {steps : Nat}
    (waiting : steps < state.refractory) :
    (group.updates inputs modes (start + steps)).states[neuron]? =
      some { state with refractory := state.refractory - steps } := by
  induction steps with
  | zero => exact place
  | succ steps inductionHypothesis =>
      have before := inductionHypothesis (Nat.lt_of_succ_lt waiting)
      exact ((atRest.updates _).turn_of_waiting before (Nat.lt_sub_of_add_lt (by omega)) _ _).1

/-- While it rests, a neuron keeps its state, but for the counter, which tells how much of the
refractory period is left. -/
theorem AtRest.exists_resting_state
    (atRest : group.AtRest)
    (acceptable : group.params.Acceptable)
    {before : Nat}
    (spike : neuron ∈ (group.updates inputs modes (before + 1)).lastSpikes) :
    ∃ state : NeuronState, state.voltage = 0 ∧
      ∀ number, before + 1 ≤ number →
        number < before + 1 + group.params.refractoryPeriod →
        (group.updates inputs modes number).states[neuron]? =
          some { state with
            refractory := before + 1 + group.params.refractoryPeriod - number } := by
  have sameParams : (group.updates inputs modes before).params = group.params :=
    atRest.params_updates before
  obtain ⟨state, place, voltage, refractory⟩ :=
    (atRest.updates before).state_of_spike (sameParams.symm ▸ acceptable) spike
  rw [sameParams] at refractory
  refine ⟨state, voltage, fun number after early => ?_⟩
  obtain ⟨steps, rfl⟩ := Nat.exists_eq_add_of_le after
  rw [Nat.add_sub_add_left, ← refractory]
  exact atRest.counts_down place (by omega)

/-- Deliveries to a neuron make no difference as long as it has more than one step left. -/
theorem AtRest.updates_congr
    (atRest : group.AtRest)
    {start finish : Nat}
    (waiting : ∀ number, start ≤ number → number + 1 < finish →
      ∃ state, (group.updates inputs modes number).states[neuron]? = some state ∧
        1 < state.refractory)
    {others : Nat → List Delivery}
    (sameElsewhere : ∀ number, start < number → number < finish →
      Delivery.SameElsewhere neuron (inputs number) (others number))
    (sameOutside : ∀ number, ¬ (start < number ∧ number < finish) →
      others number = inputs number)
    (number : Nat) :
    group.updates others modes number = group.updates inputs modes number := by
  induction number with
  | zero => rfl
  | succ number inductionHypothesis =>
      rw [NeuronGroup.updates, NeuronGroup.updates, inductionHypothesis]
      by_cases inside : start < number + 1 ∧ number + 1 < finish
      · obtain ⟨state, place, left⟩ := waiting number (Nat.le_of_lt_succ inside.1) inside.2
        exact (atRest.updates number).turn_congr place left
          (sameElsewhere _ inside.1 inside.2) _
      · rw [sameOutside _ inside]

/-- A spike is followed by a rest. -/
theorem AtRest.rests
    (atRest : group.AtRest)
    (acceptable : group.params.Acceptable)
    {before : Nat}
    (spike : neuron ∈ (group.updates inputs modes (before + 1)).lastSpikes) :
    group.Rests inputs modes neuron (before + 1) := by
  obtain ⟨state, voltage, resting⟩ := atRest.exists_resting_state acceptable spike
  have positive := acceptable.refractoryPeriod.1
  have waiting : ∀ number, before + 1 ≤ number →
      number + 1 < before + 1 + group.params.refractoryPeriod →
      ∃ state, (group.updates inputs modes number).states[neuron]? = some state ∧
        1 < state.refractory := fun number after early =>
    ⟨_, resting number after (by omega), Nat.lt_sub_of_add_lt (by omega)⟩
  refine
    { silent := ?_
      frozen := ⟨state.current, fun number after early =>
        ⟨_, resting number after early, voltage, rfl⟩⟩
      deaf := fun others sameElsewhere sameOutside =>
        atRest.updates_congr waiting sameElsewhere sameOutside
      resumes := ?_ }
  · rintro (_ | number) after early
    · cases after
    · obtain ⟨state, place, left⟩ := waiting number (Nat.le_of_lt_succ after) early
      exact ((atRest.updates number).turn_of_waiting place left _ _).2
  · rw [Nat.add_right_comm, Nat.add_sub_cancel]
    -- One step is left before the last update of the period.
    have place := resting (before + group.params.refractoryPeriod) (by omega) (by omega)
    have sameParams : (group.updates inputs modes
        (before + group.params.refractoryPeriod)).params = group.params :=
      atRest.params_updates _
    obtain ⟨after, placeAfter, integrates⟩ :=
      (atRest.updates _).turn_of_ready (sameParams.symm ▸ acceptable) place
        (by simp only; omega)
        (inputs (before + group.params.refractoryPeriod + 1))
        (modes (before + group.params.refractoryPeriod + 1))
    rw [sameParams] at integrates
    exact ⟨_, after, place, placeAfter, integrates⟩

/-- A neuron that is only excited keeps its voltage and its current from going below zero. -/
theorem AtRest.signed_updates
    (atRest : group.AtRest)
    (acceptable : group.params.Acceptable)
    (place : group.states[neuron]? = some state)
    (signed : state.Signed .excitatory)
    (excited : ∀ number, 0 ≤ Delivery.total neuron (inputs (number + 1)))
    (number : Nat) :
    ∃ state, (group.updates inputs modes number).states[neuron]? = some state ∧
      state.Signed .excitatory := by
  induction number with
  | zero => exact ⟨state, place, signed⟩
  | succ number inductionHypothesis =>
      obtain ⟨before, placeBefore, signedBefore⟩ := inductionHypothesis
      obtain ⟨generator, placeAfter, _⟩ := (atRest.updates number).exists_step placeBefore
        (inputs (number + 1)) (modes (number + 1))
      have admitted := SignMode.admits_excitatory_iff.mpr (excited number)
      rw [atRest.params_updates] at placeAfter
      exact ⟨_, placeAfter, signedBefore.update acceptable admitted _ generator⟩

/-- Without a threshold, a neuron that is only excited spikes once in each period. -/
theorem AtRest.spikes_iff
    (atRest : group.AtRest)
    (acceptable : group.params.Acceptable)
    (noThreshold : group.params.thresholdMantissa = 0)
    (place : group.states[neuron]? = some state)
    (signed : state.Signed .excitatory)
    (ready : state.refractory ≤ 1)
    (excited : ∀ number, 0 ≤ Delivery.total neuron (inputs (number + 1)))
    (number : Nat) :
    neuron ∈ (group.updates inputs modes (number + 1)).lastSpikes ↔
      group.params.refractoryPeriod ∣ number := by
  have positive := acceptable.refractoryPeriod.1
  have periodic : ∀ periods,
      neuron ∈ (group.updates inputs modes
        (group.params.refractoryPeriod * periods + 1)).lastSpikes := by
    intro periods
    induction periods with
    | zero =>
        obtain ⟨after, _, integrates⟩ := atRest.turn_of_ready acceptable place ready
          (inputs 1) (modes 1)
        exact integrates.spikes signed acceptable noThreshold (excited 0)
    | succ periods inductionHypothesis =>
        obtain ⟨before, _, placeBefore, _, integrates⟩ :=
          (atRest.rests acceptable inductionHypothesis).resumes
        obtain ⟨_, placeSigned, signedBefore⟩ :=
          atRest.signed_updates acceptable place signed excited _
        cases placeBefore.symm.trans placeSigned
        rw [Nat.add_right_comm] at integrates
        exact integrates.spikes signedBefore acceptable noThreshold (excited _)
  constructor
  · intro spike
    by_contra between
    have division := Nat.div_add_mod number group.params.refractoryPeriod
    have rest := Nat.mod_lt number positive
    have inside : 0 < number % group.params.refractoryPeriod :=
      Nat.pos_of_ne_zero fun complete => between (Nat.dvd_of_mod_eq_zero complete)
    exact (atRest.rests acceptable (periodic (number / group.params.refractoryPeriod))).silent
      (number + 1) (by omega) (by omega) spike
  · rintro ⟨periods, rfl⟩
    exact periodic periods

/-- Every spike of a group is followed by a rest, whatever the group is given in its updates, and
without a threshold a neuron that is only excited spikes in the first update and then once in each
refractory period. -/
theorem refractory_period_enforced
    {size : Nat}
    {params : NeuronParams}
    {generator : Generator}
    (created : create size params generator = .ok group)
    (inputs : Nat → List Delivery)
    (modes : Nat → RoundingMode) :
    (∀ neuron spike, neuron ∈ (group.updates inputs modes spike).lastSpikes →
      group.Rests inputs modes neuron spike) ∧
    (params.thresholdMantissa = 0 →
      ∀ neuron < size, (∀ number, 0 ≤ Delivery.total neuron (inputs (number + 1))) →
        ∀ number, neuron ∈ (group.updates inputs modes (number + 1)).lastSpikes ↔
          params.refractoryPeriod ∣ number) := by
  obtain ⟨valid, rfl⟩ := create_eq_ok_iff.mp created
  have acceptable := NeuronParams.violations_eq_nil_iff.mp valid
  have rest : (atRest size params generator).AtRest := by
    rw [AtRest, NeuronGroup.size, atRest, List.length_replicate]
  constructor
  · intro neuron spike spiked
    cases spike with
    | zero => cases spiked
    | succ before => exact rest.rests acceptable spiked
  · intro noThreshold neuron inside excited
    have place : (atRest size params generator).states[neuron]? = some {} := by
      rw [atRest, List.getElem?_replicate, if_pos inside]
    exact rest.spikes_iff acceptable noThreshold place NeuronState.signed_rest (by decide) excited

/-- The first of two neurons without a threshold, given input in each update, spikes in every third
update and does not care for its input in the two updates between. -/
theorem refractory_period_enforced_every_third :
    ∃ group,
      create 2 { refractoryPeriod := 3, thresholdMantissa := 0 } (.ofSeed 1) = .ok group ∧
      (∀ number,
        0 ∈ (group.updates (fun _ => [⟨0, 5⟩, ⟨1, -7⟩]) (fun _ => .stochastic)
          (number + 1)).lastSpikes ↔ 3 ∣ number) ∧
      group.Rests (fun _ => [⟨0, 5⟩, ⟨1, -7⟩]) (fun _ => .stochastic) 0 1 := by
  have created := create_eq_ok_iff.mpr
    ⟨(by decide :
      ({ refractoryPeriod := 3, thresholdMantissa := 0 } : NeuronParams).violations [] = []),
      (rfl : atRest 2 _ (.ofSeed 1) = _)⟩
  obtain ⟨rests, periodic⟩ :=
    refractory_period_enforced created (fun _ => [⟨0, 5⟩, ⟨1, -7⟩]) (fun _ => .stochastic)
  have everyThird := periodic rfl 0 (by decide) (fun _ => by decide)
  exact ⟨_, created, everyThird, rests 0 1 ((everyThird 0).mpr (Nat.dvd_zero 3))⟩

end NeuronGroup

end Neurochip
