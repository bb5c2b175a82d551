import Neurochip.Proofs.Failure.NeuronGroup
import Neurochip.Proofs.NeuronGroup.Refractory

namespace Neurochip

/-!
# Neuron groups that calls have led to

A group of neurons can be used by itself: input is added, neurons are updated and
states are restored in any order.  Sums of inputs are words of 64 bits, and a
call whose sum is none has no answer.  The lemmas say when a call has an answer,
and that it is then the one for integers of any size.  The main statement is
that calls never lack an answer as long as every input that has been collected
leaves room for a register.
-/

namespace NeuronState

variable {state : NeuronState} {params : NeuronParams} {mode : RoundingMode}

/-- The inputs to which whatever is in a register can be added. -/
def intakeRange : Bounds :=
  { lower := -9223372036846387200, upper := 9223372036846387200 }

theorem contains_of_roomy {input : Int} (roomy : intakeRange.Contains input) :
    Bounds.int64.Contains input := by
  obtain ⟨lower, upper⟩ :
    -9223372036846387200 ≤ input ∧ input ≤ 9223372036846387200 := roomy
  rw [Bounds.contains_int64_iff]
  omega

/-- What is left of a register and such an input add up to a word. -/
theorem contains_kept_add
    {value : Int}
    (contained : FixedPoint.stateRange.Contains value)
    {constant : Nat}
    (proper : constant ≤ 4096)
    {input : Int}
    (roomy : intakeRange.Contains input)
    (mode : RoundingMode)
    (generator : Generator) :
    Bounds.int64.Contains (((mode.decay value constant).run generator).1 + input) := by
  have kept : -8388608 ≤ ((mode.decay value constant).run generator).1 ∧
      ((mode.decay value constant).run generator).1 ≤ 8388607 :=
    contains_decay contained proper mode generator
  obtain ⟨lower, upper⟩ :
    -9223372036846387200 ≤ input ∧ input ≤ 9223372036846387200 := roomy
  rw [Bounds.contains_int64_iff]
  omega

/-- A step comes to its end exactly if the neuron is still waiting, or its decayed current and the
input add up to a word. -/
theorem exists_updateChecked_eq_ok_iff
    {input : Int}
    {generator : Generator} :
    (∃ updated, ((state.updateChecked input params mode).run generator).1 = .ok updated) ↔
      (state.refractory ≤ 1 → Bounds.int64.Contains
        (((mode.decay state.current params.decayCurrent).run generator).1 + input)) := by
  unfold updateChecked
  by_cases waiting : 1 < state.refractory
  · rw [if_pos waiting]
    exact ⟨fun _ ready => absurd ready (Nat.not_le.mpr waiting), fun _ => ⟨_, rfl⟩⟩
  · rw [if_neg waiting, Draw.run_bind]
    split
    · rename_i fits
      exact ⟨fun _ _ => fits, fun _ => ⟨_, rfl⟩⟩
    · rename_i large
      refine ⟨fun ⟨_, finished⟩ => ?_, fun fits => absurd (fits (Nat.not_lt.mp waiting)) large⟩
      cases finished

end NeuronState

namespace NeuronGroup

variable {group after : NeuronGroup} {mode : RoundingMode}

/-- The generator that the step of the neuron at a position starts from. -/
def generatorAt (group : NeuronGroup) (mode : RoundingMode) (position : Nat) : Generator :=
  ((updateEach group.params mode ((group.states.zip group.input.toList).take position)).run
    group.generator).2

/-- What an update leaves of the current of the neuron at a position before it adds the input. -/
def keptCurrent
    (group : NeuronGroup)
    (mode : RoundingMode)
    (position : Nat)
    (state : NeuronState) :
    Int :=
  ((mode.decay state.current group.params.decayCurrent).run
    (group.generatorAt mode position)).1

/-- Some neurons are all updated exactly if the step of each comes to its end. -/
theorem finished_advance_iff
    {params : NeuronParams}
    {neurons : List (NeuronState × Int)}
    {generator : Generator} :
    ((advance params mode neurons).run generator).1.waiting? = none ↔
      ∀ position state input, neurons[position]? = some (state, input) →
        state.refractory ≤ 1 → Bounds.int64.Contains
          (((mode.decay state.current params.decayCurrent).run
            ((updateEach params mode (neurons.take position)).run generator).2).1 + input) := by
  induction neurons generalizing generator with
  | nil => simp [advance]
  | cons neuron rest inductionHypothesis =>
      obtain ⟨state, input⟩ := neuron
      have first : (∃ updated,
          ((state.updateChecked input params mode).run generator).1 = .ok updated) ↔ _ :=
        NeuronState.exists_updateChecked_eq_ok_iff
      rw [← Nat.and_forall_add_one, advance, Draw.run_bind]
      cases reached : (state.updateChecked input params mode).run generator with
      | mk result next =>
      rw [reached] at first
      cases result with
      | error left =>
          constructor
          · intro finished
            cases finished
          · rintro ⟨here, -⟩
            obtain ⟨updated, finished⟩ := first.mpr (here state input rfl)
            cases finished
      | ok updated =>
          have fits := first.mp ⟨updated, rfl⟩
          have step := NeuronState.run_updateChecked_of_ok reached
          have behind : ∀ position,
              ((updateEach params mode (((state, input) :: rest).take (position + 1))).run
                generator).2 =
              ((updateEach params mode (rest.take position)).run next).2 := by
            intro position
            rw [List.take_succ_cons, updateEach, Draw.run_mapM_cons, step]
            rfl
          refine Iff.trans inductionHypothesis ?_
          simp only [List.getElem?_cons_succ, behind]
          refine ⟨fun later => ⟨?_, later⟩, And.right⟩
          intro _ _ place ready
          cases place
          exact fits ready

/-- An update answers exactly if the decayed current and the input of each neuron that integrates add
up to a word, and then it is the update for integers of any size. -/
theorem updateChecked_eq_ok_iff :
    group.updateChecked mode = .ok after ↔
      (∀ position state input, group.states[position]? = some state →
        group.input[position]? = some input → state.refractory ≤ 1 →
        Bounds.int64.Contains (group.keptCurrent mode position state + input)) ∧
      group.update mode = after := by
  have finished : (∃ after, group.updateChecked mode = .ok after) ↔
      ((advance group.params mode (group.states.zip group.input.toList)).run
        group.generator).1.waiting? = none := by
    unfold updateChecked
    split
    rename_i reached generator shape
    rw [shape]
    dsimp only
    split <;> simp [*]
  simp only [finished_advance_iff, List.getElem?_zip_eq_some, Array.getElem?_toList, and_imp]
    at finished
  constructor
  · intro answered
    exact ⟨finished.mp ⟨after, answered⟩, (eq_update_of_updateChecked answered).symm⟩
  · rintro ⟨fits, rfl⟩
    obtain ⟨after, answered⟩ := finished.mpr fits
    rwa [← eq_update_of_updateChecked answered]

/-- Input is added exactly if it is for a neuron of the group and the sum is a word. -/
theorem addInput?_eq_some_iff {delivery : Delivery} :
    group.addInput? delivery = some after ↔
      (∃ input, group.input[delivery.neuron]? = some input ∧
        Bounds.int64.Contains (input + delivery.amount)) ∧
      group.addInputs [delivery] = after := by
  unfold addInput?
  cases place : group.input[delivery.neuron]? with
  | none => simp
  | some input =>
      dsimp only
      split <;> simp [*]

/-- A call of a group that is used by itself. -/
inductive Call where
  | input (delivery : Delivery)
  | update (mode : RoundingMode)
  | restore (states : List NeuronState)

/-- The group as a call leaves it, if the call has an answer. -/
def perform? (group : NeuronGroup) : Call → Option NeuronGroup
  | .input delivery => group.addInput? delivery
  | .update mode => (group.updateChecked mode).toOption
  | .restore states => some ((restoreInPlace states).call group).2

/-- The group after some calls, if they all have an answer. -/
def performAll? (group : NeuronGroup) (calls : List Call) : Option NeuronGroup :=
  calls.foldlM perform? group

/-- The group after a call, where integers of any size are added. -/
def perform (group : NeuronGroup) : Call → NeuronGroup
  | .input delivery => group.addInputs [delivery]
  | .update mode => group.update mode
  | .restore states => ((restoreInPlace states).call group).2

/-- States that are refused change nothing. -/
theorem perform_restore (group : NeuronGroup) (states : List NeuronState) :
    group.perform (.restore states) = resultOr group (group.restore states) :=
  congrArg Prod.snd ((carriesOut_restoreInPlace states).call_eq group)

theorem perform?_update_eq_some_iff :
    group.perform? (.update mode) = some after ↔ group.updateChecked mode = .ok after := by
  rw [perform?]
  cases group.updateChecked mode <;> simp [Except.toOption]

/-- A call that answers does so as if integers of any size were added. -/
theorem perform_of_perform?
    {call : Call}
    (answered : group.perform? call = some after) :
    group.perform call = after := by
  cases call with
  | input delivery => exact (addInput?_eq_some_iff.mp answered).2
  | update mode =>
      exact (updateChecked_eq_ok_iff.mp (perform?_update_eq_some_iff.mp answered)).2
  | restore states => exact Option.some.inj answered

theorem performAll?_cons_eq_some_iff {call : Call} {rest : List Call} :
    group.performAll? (call :: rest) = some after ↔
      ∃ middle, group.perform? call = some middle ∧ middle.performAll? rest = some after := by
  rw [performAll?, List.foldlM_cons]
  exact Option.bind_eq_some_iff

theorem performAll?_concat_eq_some_iff
    {after : NeuronGroup}
    {calls : List Call}
    {call : Call} :
    group.performAll? (calls ++ [call]) = some after ↔
      ∃ before, group.performAll? calls = some before ∧ before.perform? call = some after := by
  rw [performAll?, List.foldlM_append]
  simp [performAll?, Option.bind_eq_some_iff]

/-- What a call keeps is kept by all calls. -/
theorem performAll?_induction
    (holds : NeuronGroup → Prop)
    {calls : List Call}
    (kept : ∀ call ∈ calls, ∀ group, holds group → holds (group.perform call))
    (before : holds group)
    (answered : group.performAll? calls = some after) :
    holds after := by
  induction calls generalizing group with
  | nil =>
      cases answered
      exact before
  | cons call rest inductionHypothesis =>
      obtain ⟨middle, first, later⟩ := performAll?_cons_eq_some_iff.mp answered
      refine inductionHypothesis (fun other member => kept other (List.mem_cons_of_mem _ member))
        ?_ later
      rw [← perform_of_perform? first]
      exact kept call List.mem_cons_self group before

/-- Parameters and size never change, and each neuron keeps a place for its input. -/
structure Framed (params : NeuronParams) (size : Nat) (group : NeuronGroup) : Prop where
  frame : group.frame = (params, size)
  fitted : group.Fitted

variable {params : NeuronParams} {size : Nat}

theorem framed_atRest (generator : Generator) : (atRest size params generator).Framed params size :=
  ⟨by simp [frame, atRest, NeuronGroup.size], by simp [Fitted, atRest, NeuronGroup.size]⟩

theorem Framed.perform (framed : group.Framed params size) (call : Call) :
    (group.perform call).Framed params size := by
  obtain ⟨frame, fitted⟩ := framed
  cases call with
  | input delivery => exact ⟨frame, fitted.addInputs [delivery]⟩
  | update mode =>
      exact ⟨(fitted.frame_update mode).trans frame, (fitted.atRest_update mode).fitted⟩
  | restore states =>
      rw [perform_restore]
      refine resultOr_of_accepted (Framed params size) ⟨frame, fitted⟩ fun after accepted => ?_
      exact ⟨(frame_restore accepted).trans frame, (fitted.atRest_restore accepted).fitted⟩

/-- A register can still be added to every input that has been collected. -/
def HasRoom (group : NeuronGroup) : Prop :=
  ∀ input ∈ group.input.toList, NeuronState.intakeRange.Contains input

instance (group : NeuronGroup) : Decidable group.HasRoom :=
  inferInstanceAs (Decidable (∀ input ∈ group.input.toList, _))

/-- Calls that give input to neurons of the group only, and after each of which the group has room. -/
def LeavesRoom (group : NeuronGroup) : List Call → Prop
  | [] => group.HasRoom
  | call :: rest =>
      group.HasRoom ∧
      (∀ delivery, call = .input delivery → delivery.neuron < group.size) ∧
      (group.perform call).LeavesRoom rest

theorem LeavesRoom.hasRoom {calls : List Call} (leaves : group.LeavesRoom calls) :
    group.HasRoom := by
  cases calls with
  | nil => exact leaves
  | cons call rest => exact leaves.1

theorem InRange.perform
    (inRange : group.InRange)
    (acceptable : group.params.Acceptable)
    (call : Call) :
    (group.perform call).InRange := by
  cases call with
  | input delivery => exact inRange
  | update mode => exact inRange.update acceptable mode
  | restore states =>
      rw [perform_restore]
      exact resultOr_of_accepted InRange inRange fun _ accepted => inRange_restore accepted

/-- An update of a group with room has an answer. -/
theorem HasRoom.updateChecked_eq
    (room : group.HasRoom)
    (inRange : group.InRange)
    (acceptable : group.params.Acceptable)
    (mode : RoundingMode) :
    group.updateChecked mode = .ok (group.update mode) := by
  refine updateChecked_eq_ok_iff.mpr ⟨fun position state input place collected _ => ?_, rfl⟩
  have contained := (inRange state (List.mem_of_getElem? place)).current
  have roomy := room input (Array.mem_toList_iff.mpr (Array.mem_of_getElem? collected))
  exact NeuronState.contains_kept_add contained acceptable.decayCurrent roomy mode _

/-- Input that leaves room is added. -/
theorem HasRoom.addInput?_eq
    {delivery : Delivery}
    (room : (group.addInputs [delivery]).HasRoom)
    (inside : delivery.neuron < group.input.size) :
    group.addInput? delivery = some (group.addInputs [delivery]) := by
  obtain ⟨input, place⟩ := Guard.exists_element inside
  have added : (group.addInputs [delivery]).input[delivery.neuron]? =
      some (input + delivery.amount) := by
    rw [addInputs, Delivery.getElem?_addAll, place]
    simp
  have roomy := room _ (Array.mem_toList_iff.mpr (Array.mem_of_getElem? added))
  exact addInput?_eq_some_iff.mpr
    ⟨⟨input, place, NeuronState.contains_of_roomy roomy⟩, rfl⟩

/-- Calls that leave room have an answer. -/
theorem LeavesRoom.exists_performAll?_eq
    {calls : List Call}
    (leaves : group.LeavesRoom calls)
    (framed : group.Framed params size)
    (acceptable : params.Acceptable)
    (inRange : group.InRange) :
    ∃ after, group.performAll? calls = some after ∧ after.HasRoom ∧ after.InRange := by
  induction calls generalizing group with
  | nil => exact ⟨group, rfl, leaves, inRange⟩
  | cons call rest inductionHypothesis =>
      obtain ⟨room, inside, later⟩ := leaves
      have sameParams : group.params = params := congrArg Prod.fst framed.frame
      have answered : group.perform? call = some (group.perform call) := by
        cases call with
        | input delivery =>
            have place : delivery.neuron < group.input.size :=
              Nat.lt_of_lt_of_eq (inside delivery rfl) (Eq.symm framed.fitted)
            exact later.hasRoom.addInput?_eq place
        | update mode =>
            exact perform?_update_eq_some_iff.mpr
              (room.updateChecked_eq inRange (sameParams ▸ acceptable) mode)
        | restore states => rfl
      obtain ⟨after, others, reached⟩ := inductionHypothesis later (framed.perform call)
        (inRange.perform (sameParams ▸ acceptable) call)
      exact ⟨after, performAll?_cons_eq_some_iff.mpr ⟨_, answered, others⟩, reached⟩

end NeuronGroup

end Neurochip
