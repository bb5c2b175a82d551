import Neurochip.Proofs.Failure.Rounding
import Neurochip.Proofs.NeuronGroup.Registers

namespace Neurochip

/-!
# Updating neurons does not fail

Currents and voltages stay in registers of 24 bits, and constants in 13 bits.
So a step of a neuron computes in words of 64 bits as long as its input leaves
room for one such register.
-/

/-- The voltage at which a neuron spikes, by a shift of a word of 32 bits. -/
def NeuronParams.thresholdGuarded (params : NeuronParams) : Except Failure Int :=
  Guard.shiftedLeft .int32 32 params.thresholdMantissa 6

namespace NeuronState

/-- The inputs that a neuron can take up: 62 bits and a sign. -/
def inputRange : Bounds :=
  { lower := -4611686018427387904, upper := 4611686018427387904 }

/-- The rest of a step once the decayed current and the input have been added up, computed in
words. -/
def integrateGuarded
    (state : NeuronState)
    (total : Int)
    (params : NeuronParams)
    (mode : RoundingMode) :
    Guarded (NeuronState × Bool) := do
  let current := FixedPoint.stateRange.clamp total
  let keptVoltage ← mode.decayGuarded state.voltage params.decayVoltage
  let sum ← Guard.word .int64 (keptVoltage + current)
  let voltage := FixedPoint.stateRange.clamp sum
  let threshold ← params.thresholdGuarded
  if threshold ≤ voltage then
    return ({ voltage := 0, current := current, refractory := params.refractoryPeriod }, true)
  else
    return ({ voltage := voltage, current := current, refractory := 0 }, false)

/-- One step of a neuron, computed in words. -/
def updateGuarded
    (state : NeuronState)
    (input : Int)
    (params : NeuronParams)
    (mode : RoundingMode) :
    Guarded (NeuronState × Bool) :=
  if 1 < state.refractory then
    return ({ state with refractory := state.refractory - 1 }, false)
  else do
    let keptCurrent ← mode.decayGuarded state.current params.decayCurrent
    let total ← Guard.word .int64 (keptCurrent + input)
    state.integrateGuarded total params mode

/-- Voltage and current are words of 32 bits. -/
structure HoldsWords (state : NeuronState) : Prop where
  voltage : Bounds.int32.Contains state.voltage
  current : Bounds.int32.Contains state.current

variable {state : NeuronState} {params : NeuronParams}

/-- The threshold is computed without failure. -/
theorem thresholdGuarded_eq (acceptable : params.Acceptable) :
    params.thresholdGuarded = .ok params.threshold := by
  have small := acceptable.thresholdMantissa
  have fits : Bounds.int32.Contains
      ((params.thresholdMantissa : Int) * FixedPoint.mantissaUnit) := by
    rw [Bounds.contains_int32_iff, FixedPoint.mantissaUnit]
    omega
  rw [acceptable.threshold_eq]
  exact Guard.shiftedLeft_of_contains (by decide) fits

/-- A register that decays stays in its range. -/
theorem contains_decay
    {value : Int}
    (contained : FixedPoint.stateRange.Contains value)
    {constant : Nat}
    (proper : constant ≤ 4096)
    (mode : RoundingMode)
    (generator : Generator) :
    FixedPoint.stateRange.Contains ((mode.decay value constant).run generator).1 := by
  have atMostWhole : (constant : Int) ≤ FixedPoint.decayScale := by
    rw [FixedPoint.decayScale]
    omega
  exact mode.run_decayByRatio_between (by omega) (.inr atMostWhole) (by decide) (by decide)
    contained generator

/-- A register is a word of 32 bits. -/
theorem contains_int32
    {value : Int}
    (contained : FixedPoint.stateRange.Contains value) :
    Bounds.int32.Contains value := by
  obtain ⟨lower, upper⟩ := contained
  simp only [FixedPoint.stateRange] at lower upper
  rw [Bounds.contains_int32_iff]
  omega

theorem InRange.holdsWords (inRange : state.InRange) : state.HoldsWords :=
  ⟨contains_int32 inRange.voltage, contains_int32 inRange.current⟩

/-- The sum of a current that decays and a supported input is a word of 64 bits. -/
theorem HoldsWords.contains_total
    (holds : state.HoldsWords)
    (acceptable : params.Acceptable)
    {input : Int}
    (supported : inputRange.Contains input)
    (mode : RoundingMode)
    (generator : Generator) :
    Bounds.int64.Contains
      (((mode.decay state.current params.decayCurrent).run generator).1 + input) := by
  have proper : (params.decayCurrent : Int) ≤ FixedPoint.decayScale := by
    exact_mod_cast acceptable.decayCurrent
  have kept : -2147483648 ≤ ((mode.decay state.current params.decayCurrent).run generator).1 ∧
      ((mode.decay state.current params.decayCurrent).run generator).1 ≤ 2147483647 :=
    mode.run_decayByRatio_between (Int.natCast_nonneg _) (.inr proper) (by decide) (by decide)
      holds.current generator
  obtain ⟨inputLower, inputUpper⟩ :
    -4611686018427387904 ≤ input ∧ input ≤ 4611686018427387904 := supported
  rw [Bounds.contains_int64_iff]
  omega

/-- Integrating a sum does not fail in a neuron whose registers are in range. -/
theorem InRange.agrees_integrate
    (inRange : state.InRange)
    (acceptable : params.Acceptable)
    (total : Int)
    (mode : RoundingMode) :
    Guarded.Agrees (state.integrateGuarded total params mode)
      (state.integrate total params mode) := by
  have proper := acceptable.decayVoltage
  unfold integrateGuarded integrate
  refine (mode.agrees_decay inRange.holdsWords.voltage (by omega)).bind fun generator => ?_
  have sumFits : Bounds.int64.Contains
      (((mode.decay state.voltage params.decayVoltage).run generator).1 +
        FixedPoint.stateRange.clamp total) := by
    obtain ⟨voltageLower, voltageUpper⟩ := contains_decay inRange.voltage proper mode generator
    obtain ⟨currentLower, currentUpper⟩ := FixedPoint.stateRange.contains_clamp total
    have lower : FixedPoint.stateRange.lower = -8388608 := rfl
    have upper : FixedPoint.stateRange.upper = 8388607 := rfl
    rw [Bounds.contains_int64_iff]
    omega
  refine Guarded.agrees_lift_bind (Guard.word_of_contains sumFits) ?_
  refine Guarded.agrees_lift_bind (thresholdGuarded_eq acceptable) ?_
  dsimp only
  split
  · exact Guarded.agrees_pure _
  · exact Guarded.agrees_pure _

/-- A step of a neuron whose registers are in range does not fail on a supported input. -/
theorem InRange.agrees_update
    (inRange : state.InRange)
    (acceptable : params.Acceptable)
    {input : Int}
    (supported : inputRange.Contains input)
    (mode : RoundingMode) :
    Guarded.Agrees (state.updateGuarded input params mode) (state.update input params mode) := by
  have proper := acceptable.decayCurrent
  unfold updateGuarded NeuronState.update
  split
  · exact Guarded.agrees_pure _
  · refine (mode.agrees_decay inRange.holdsWords.current (by omega)).bind fun generator => ?_
    have totalFits := inRange.holdsWords.contains_total acceptable supported mode generator
    exact Guarded.agrees_lift_bind (Guard.word_of_contains totalFits)
      (inRange.agrees_integrate acceptable _ mode)

end NeuronState

namespace NeuronGroup

/-- One step of all neurons in order, computed in words. -/
def updateGuarded (group : NeuronGroup) (mode : RoundingMode) : Except Failure NeuronGroup := do
  let (updated, generator) ←
    ((group.states.zip group.input.toList).mapM fun (state, input) =>
      state.updateGuarded input group.params mode : Guarded _).run group.generator
  return {
    params := group.params
    states := updated.map Prod.fst
    input := Array.replicate group.input.size 0
    lastSpikes := spiking updated
    generator := generator }

/-- Replaces all states by copying others over them, forgetting collected input and last spikes. -/
def restoreGuarded (group : NeuronGroup) (states : List NeuronState) :
    GuardedCheck NeuronGroup := do
  Refusal.checkLengths .neuronStates group.size states.length
  Refusal.checkValid (checkEach NeuronState.violations states)
  let copied ← Guard.copied group.states states
  return { group with
    states := copied
    input := Array.replicate group.input.size 0
    lastSpikes := [] }

/-- The inputs collected so far are inputs that neurons can take up. -/
def Supported (group : NeuronGroup) : Prop :=
  ∀ input ∈ group.input.toList, NeuronState.inputRange.Contains input

/-- An update of neurons whose registers are in range does not fail on supported inputs. -/
theorem InRange.updateGuarded_eq
    {group : NeuronGroup}
    (inRange : group.InRange)
    (acceptable : group.params.Acceptable)
    (supported : group.Supported)
    (mode : RoundingMode) :
    group.updateGuarded mode = .ok (group.update mode) := by
  have agrees : Guarded.Agrees
      ((group.states.zip group.input.toList).mapM fun (state, input) =>
        state.updateGuarded input group.params mode)
      (group.updatedNeurons mode) := by
    refine Guarded.agrees_mapM fun neuron member => ?_
    obtain ⟨memberState, memberInput⟩ := List.of_mem_zip member
    exact (inRange _ memberState).agrees_update acceptable (supported _ memberInput) mode
  unfold updateGuarded
  rw [bind_of_eq_ok (agrees group.generator), update_eq]
  rfl

theorem agrees_restore (group : NeuronGroup) (states : List NeuronState) :
    GuardedCheck.Agrees (group.restoreGuarded states) (group.restore states) := by
  rw [restore_eq, checkStates, bind_assoc]
  unfold restoreGuarded
  refine (GuardedCheck.agrees_lift _).bind fun _ checked => ?_
  refine (GuardedCheck.agrees_lift _).bind fun _ _ => ?_
  have sameLength : group.states.length = states.length :=
    Refusal.checkLengths_eq_ok_iff.mp checked
  exact GuardedCheck.agrees_guard_bind (if_pos sameLength) rfl

end NeuronGroup

end Neurochip
