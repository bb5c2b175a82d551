import Neurochip.Proofs.NeuronGroup.Calls

namespace Neurochip

/-!
# How neurons take up what they are given

Input is added up in words of 64 bits, and an update adds the sum to what decay
has left of the current before it limits the result to its register.  The main
statement says that the new current is the limited exact sum, and when there is
one: a sum on the way that is no word is not limited, but leaves the call
without an answer.
-/

/-- A neuron that integrates limits what is left of its current and its input to the register. -/
theorem NeuronState.current_update
    {state : NeuronState}
    (ready : state.refractory ≤ 1)
    (input : Int)
    (params : NeuronParams)
    (mode : RoundingMode)
    (generator : Generator) :
    ((state.update input params mode).run generator).1.1.current =
      FixedPoint.stateRange.clamp
        (((mode.decay state.current params.decayCurrent).run generator).1 + input) := by
  unfold update
  rw [if_neg (Nat.not_lt.mpr ready), Draw.run_bind]
  simp only [integrate, Draw.run_bind]
  split <;> rfl

namespace NeuronGroup

variable {group : NeuronGroup}

/-- Every collected input is a word. -/
def CollectsWords (group : NeuronGroup) : Prop :=
  ∀ (neuron : Nat) (input : Int), group.input[neuron]? = some input →
    Bounds.int64.Contains input

/-- All inputs are still words after some deliveries. -/
def StaysWords (group : NeuronGroup) (deliveries : List Delivery) : Prop :=
  ∀ (neuron : Nat) (input : Int), group.input[neuron]? = some input →
    Bounds.int64.Contains (input + Delivery.total neuron deliveries)

theorem staysWords_iff {deliveries : List Delivery} :
    group.StaysWords deliveries ↔ (group.addInputs deliveries).CollectsWords := by
  unfold StaysWords CollectsWords Delivery.total
  simp only [addInputs, Delivery.getElem?_addAll, Option.map_eq_some_iff]
  constructor
  · rintro stays neuron _ ⟨input, place, rfl⟩
    exact stays neuron input place
  · intro words neuron input place
    exact words neuron _ ⟨input, place, rfl⟩

theorem addInput?_eq_some_iff_staysWords
    {after : NeuronGroup}
    {delivery : Delivery}
    (words : group.CollectsWords) :
    group.addInput? delivery = some after ↔
      (delivery.neuron < group.input.size ∧ group.StaysWords [delivery]) ∧
      group.addInputs [delivery] = after := by
  rw [addInput?_eq_some_iff]
  refine and_congr_left fun _ => ?_
  have own : Delivery.total delivery.neuron [delivery] = delivery.amount := by
    simp [Delivery.total]
  constructor
  · rintro ⟨input, place, fits⟩
    refine ⟨(Array.getElem?_eq_some_iff.mp place).1, fun neuron other there => ?_⟩
    by_cases here : delivery.neuron = neuron
    · subst here
      rw [own]
      cases place.symm.trans there
      exact fits
    · have nothing : Delivery.total neuron [delivery] = 0 := by
        simp [Delivery.total, here]
      rw [nothing, Int.add_zero]
      exact words neuron other there
  · rintro ⟨inside, stays⟩
    obtain ⟨input, place⟩ := Guard.exists_element inside
    have fits := stays delivery.neuron input place
    rw [own] at fits
    exact ⟨input, place, fits⟩

/-- Input is added exactly if it is for neurons of the group and all sums on the way are words. -/
theorem performAll?_input_eq_some_iff
    {loaded : NeuronGroup}
    {deliveries : List Delivery}
    (words : group.CollectsWords) :
    group.performAll? (deliveries.map .input) = some loaded ↔
      (∀ delivery ∈ deliveries, delivery.neuron < group.input.size) ∧
      (∀ earlier, earlier <+: deliveries → group.StaysWords earlier) ∧
      group.addInputs deliveries = loaded := by
  induction deliveries generalizing group with
  | nil =>
      have same : group.performAll? ([].map .input) = some loaded ↔ group = loaded :=
        Option.some_inj
      rw [same]
      refine ⟨fun unchanged => ⟨by simp, fun earlier isPrefix => ?_, unchanged⟩, fun h => h.2.2⟩
      rw [List.prefix_nil.mp isPrefix, staysWords_iff]
      exact words
  | cons first rest inductionHypothesis =>
      have sameSize : (group.addInputs [first]).input.size = group.input.size :=
        Delivery.size_addAll _ _
      have behind : ∀ earlier,
          (group.addInputs [first]).StaysWords earlier ↔ group.StaysWords (first :: earlier) :=
        fun earlier => staysWords_iff.trans (Iff.symm staysWords_iff)
      rw [List.map_cons, performAll?_cons_eq_some_iff]
      simp only [perform?, addInput?_eq_some_iff_staysWords words, List.forall_mem_cons]
      constructor
      · rintro ⟨_, ⟨⟨inside, stays⟩, rfl⟩, later⟩
        obtain ⟨insideRest, sums, same⟩ :=
          (inductionHypothesis (staysWords_iff.mp stays)).mp later
        rw [sameSize] at insideRest
        refine ⟨⟨inside, insideRest⟩, fun earlier isPrefix => ?_, same⟩
        cases earlier with
        | nil => exact staysWords_iff.mpr words
        | cons other before =>
            obtain ⟨rfl, restPrefix⟩ := List.cons_prefix_cons.mp isPrefix
            exact (behind before).mp (sums before restPrefix)
      · rintro ⟨⟨inside, insideRest⟩, sums, same⟩
        have stays : group.StaysWords [first] := sums [first] (List.prefix_append [first] rest)
        refine ⟨_, ⟨⟨inside, stays⟩, rfl⟩, ?_⟩
        refine (inductionHypothesis (staysWords_iff.mp stays)).mpr ⟨?_, ?_, same⟩
        · rwa [sameSize]
        · intro earlier isPrefix
          exact (behind earlier).mpr
            (sums _ (List.cons_prefix_cons.mpr ⟨rfl, isPrefix⟩))

/-- What a neuron of a group at rest has collected after some deliveries. -/
theorem AtRest.getElem?_input_addInputs
    {state : NeuronState}
    {neuron : Nat}
    (atRest : group.AtRest)
    (place : group.states[neuron]? = some state)
    (deliveries : List Delivery) :
    (group.addInputs deliveries).input[neuron]? = some (Delivery.total neuron deliveries) := by
  have handed := atRest.getElem?_zip_addInputs deliveries neuron
  rw [place, Option.map_some, List.getElem?_zip_eq_some, Array.getElem?_toList] at handed
  exact handed.2

theorem AtRest.staysWords_iff (atRest : group.AtRest) {deliveries : List Delivery} :
    group.StaysWords deliveries ↔
      ∀ neuron < group.size, Bounds.int64.Contains (Delivery.total neuron deliveries) := by
  unfold StaysWords
  rw [show group.input = _ from atRest]
  simp [Array.getElem?_replicate]

/-- An update limits what is left of a current and all that was delivered to the register. -/
theorem AtRest.current_turn
    {state : NeuronState}
    {neuron : Nat}
    (atRest : group.AtRest)
    (place : group.states[neuron]? = some state)
    (ready : state.refractory ≤ 1)
    (deliveries : List Delivery)
    (mode : RoundingMode) :
    (group.turn deliveries mode).states[neuron]?.map NeuronState.current =
      some (FixedPoint.stateRange.clamp
        ((group.addInputs deliveries).keptCurrent mode neuron state +
          Delivery.total neuron deliveries)) := by
  have handed := atRest.getElem?_zip_addInputs deliveries neuron
  rw [NeuronGroup.turn, update_eq, updatedNeurons, updateEach, List.getElem?_map, Draw.getElem?_run_mapM, handed,
    place]
  exact congrArg some (NeuronState.current_update ready _ _ mode _)

/-- The update after some deliveries answers exactly if it adds the input of no neuron up to more than
a word. -/
theorem AtRest.updateChecked_addInputs_eq_ok_iff
    {after : NeuronGroup}
    {deliveries : List Delivery}
    {mode : RoundingMode}
    (atRest : group.AtRest) :
    (group.addInputs deliveries).updateChecked mode = .ok after ↔
      (∀ neuron state, group.states[neuron]? = some state → state.refractory ≤ 1 →
        Bounds.int64.Contains
          ((group.addInputs deliveries).keptCurrent mode neuron state +
            Delivery.total neuron deliveries)) ∧
      group.turn deliveries mode = after := by
  refine updateChecked_eq_ok_iff.trans (and_congr_left fun _ => ?_)
  constructor
  · intro fits neuron state place ready
    exact fits neuron state _ place (atRest.getElem?_input_addInputs place deliveries) ready
  · intro fits neuron state input place collected ready
    cases (atRest.getElem?_input_addInputs place deliveries).symm.trans collected
    exact fits neuron state place ready

/-- The input of a group at rest is collected exactly if it is for its neurons and all sums on the way
are words. -/
theorem AtRest.performAll?_input_eq_some_iff
    {loaded : NeuronGroup}
    {deliveries : List Delivery}
    (atRest : group.AtRest) :
    group.performAll? (deliveries.map .input) = some loaded ↔
      (∀ delivery ∈ deliveries, delivery.neuron < group.size) ∧
      (∀ earlier, earlier <+: deliveries → ∀ neuron < group.size,
        Bounds.int64.Contains (Delivery.total neuron earlier)) ∧
      group.addInputs deliveries = loaded := by
  have words : group.CollectsWords := by
    intro neuron input place
    rw [show group.input = _ from atRest] at place
    obtain ⟨-, rfl⟩ : _ ∧ 0 = input := by simpa [Array.getElem?_replicate] using place
    decide
  rw [NeuronGroup.performAll?_input_eq_some_iff words, show group.input.size = group.size from
    atRest.fitted]
  simp only [atRest.staysWords_iff]

/-- A group that calls have led to, from its creation on. -/
def Reached
    (size : Nat)
    (params : NeuronParams)
    (generator : Generator)
    (group : NeuronGroup) :
    Prop :=
  ∃ created calls, create size params generator = .ok created ∧
    created.performAll? calls = some group

theorem Reached.sound
    {size : Nat}
    {params : NeuronParams}
    {generator : Generator}
    (reached : group.Reached size params generator) :
    group.params.Acceptable ∧ group.InRange := by
  obtain ⟨created, calls, accepted, answered⟩ := reached
  obtain ⟨valid, rfl⟩ := create_eq_ok_iff.mp accepted
  have acceptable := NeuronParams.violations_eq_nil_iff.mp valid
  have kept : group.Framed params size ∧ group.InRange := by
    refine performAll?_induction (fun group => group.Framed params size ∧ group.InRange) ?_
      ⟨framed_atRest generator, inRange_atRest size params generator⟩ answered
    rintro call - before ⟨framed, inRange⟩
    have given : before.params = params := congrArg Prod.fst framed.frame
    exact ⟨framed.perform call, inRange.perform (given ▸ acceptable) call⟩
  have given : group.params = params := congrArg Prod.fst kept.1.frame
  exact ⟨given ▸ acceptable, kept.2⟩

/-- What becomes of the input that a group is given before its next update. -/
structure TakesUp
    (group : NeuronGroup)
    (deliveries : List Delivery)
    (mode : RoundingMode) :
    Prop where
  /-- Input is added exactly if it is for neurons of the group and all sums on the way are words. -/
  collected_iff : ∀ loaded, group.performAll? (deliveries.map .input) = some loaded ↔
    (∀ delivery ∈ deliveries, delivery.neuron < group.size) ∧
    (∀ earlier, earlier <+: deliveries → ∀ neuron < group.size,
      Bounds.int64.Contains (Delivery.total neuron earlier)) ∧
    group.addInputs deliveries = loaded
  /-- The update answers exactly if it adds the input of no neuron up to more than a word. -/
  updated_iff : ∀ after, (group.addInputs deliveries).updateChecked mode = .ok after ↔
    (∀ neuron state, group.states[neuron]? = some state → state.refractory ≤ 1 →
      Bounds.int64.Contains
        ((group.addInputs deliveries).keptCurrent mode neuron state +
          Delivery.total neuron deliveries)) ∧
    group.turn deliveries mode = after
  /-- The new current of a neuron that integrates is the exact sum, limited to the register. -/
  current : ∀ neuron state, group.states[neuron]? = some state → state.refractory ≤ 1 →
    (group.turn deliveries mode).states[neuron]?.map NeuronState.current =
      some (FixedPoint.stateRange.clamp
        ((group.addInputs deliveries).keptCurrent mode neuron state +
          Delivery.total neuron deliveries))
  /-- There are answers as long as a register can be added to every sum on the way. -/
  answers :
    (∀ delivery ∈ deliveries, delivery.neuron < group.size) →
    (∀ earlier, earlier <+: deliveries → ∀ neuron < group.size,
      NeuronState.intakeRange.Contains (Delivery.total neuron earlier)) →
    group.performAll? (deliveries.map .input ++ [.update mode]) =
      some (group.turn deliveries mode)

/-- The current takes up the exact sum of all input, limited to the register, where no sum on the way
leaves the range of words.  A sum that does is not limited: the call has no answer. -/
theorem input_is_exact_unless_overflowing
    {size : Nat}
    {params : NeuronParams}
    {generator : Generator}
    (reached : group.Reached size params generator)
    (atRest : group.AtRest)
    (deliveries : List Delivery)
    (mode : RoundingMode) :
    group.TakesUp deliveries mode := by
  obtain ⟨acceptable, inRange⟩ := reached.sound
  refine
    { collected_iff := fun _ => atRest.performAll?_input_eq_some_iff
      updated_iff := fun _ => atRest.updateChecked_addInputs_eq_ok_iff
      current := fun _ _ place ready => atRest.current_turn place ready deliveries mode
      answers := fun inside roomy => ?_ }
  refine performAll?_concat_eq_some_iff.mpr ⟨group.addInputs deliveries, ?_, ?_⟩
  · refine atRest.performAll?_input_eq_some_iff.mpr ⟨inside, ?_, rfl⟩
    intro earlier isPrefix neuron there
    exact NeuronState.contains_of_roomy (roomy earlier isPrefix neuron there)
  · refine perform?_update_eq_some_iff.mpr
      (atRest.updateChecked_addInputs_eq_ok_iff.mpr ⟨?_, rfl⟩)
    intro neuron state place _
    have contained := (inRange state (List.mem_of_getElem? place)).current
    have there := (List.getElem?_eq_some_iff.mp place).1
    exact NeuronState.contains_kept_add contained acceptable.decayCurrent
      (roomy deliveries (List.prefix_refl deliveries) neuron there) mode _

/-- A neuron that has just been created takes up two inputs, the first of them larger than any
register. -/
theorem input_is_exact_unless_overflowing_fresh :
    ∃ group : NeuronGroup, group.Reached 1 {} (.ofSeed 0) ∧ group.AtRest ∧
      group.TakesUp [⟨0, 9000000⟩, ⟨0, -700000⟩] .stochastic := by
  have accepted := create_eq_ok_iff.mpr
    ⟨(by decide : ({} : NeuronParams).violations [] = []), (rfl : atRest 1 {} (.ofSeed 0) = _)⟩
  have reached : (atRest 1 {} (.ofSeed 0)).Reached 1 {} (.ofSeed 0) := ⟨_, [], accepted, rfl⟩
  have resting : (atRest 1 {} (.ofSeed 0)).AtRest := rfl
  exact ⟨_, reached, resting, input_is_exact_unless_overflowing reached resting _ .stochastic⟩

/-- A neuron with a negative current is given the least word, and the update that should limit the
current has no answer.  The same neuron is given one more than the greatest word, and the input has
no answer either. -/
theorem large_input_is_not_limited :
    ∃ created group loaded,
      create 1 { thresholdMantissa := 131071, decayCurrent := 0, decayVoltage := 0 } (.ofSeed 0) =
        .ok created ∧
      created.performAll? [.input ⟨0, -100⟩, .update .towardZero] = some group ∧
      group.states = [{ voltage := -100, current := -100 }] ∧
      group.performAll? [.input ⟨0, -9223372036854775808⟩] = some loaded ∧
      loaded.performAll? [.update .towardZero] = none ∧
      group.performAll? [.input ⟨0, 9223372036854775807⟩, .input ⟨0, 1⟩] = none :=
  ⟨_, _, _, rfl, rfl, rfl, rfl, rfl, rfl⟩

end NeuronGroup

end Neurochip
