import Neurochip.Params.Acceptable
import Neurochip.Proofs.NeuronGroup.Frame

namespace Neurochip

/-!
# The registers of neurons

Voltage, current and refractory counter of a neuron stay in their registers
whatever its input is.  These are the ranges that a saved state has to respect,
so a group accepts its own states.
-/

/-- The threshold of acceptable parameters fits its word. -/
theorem NeuronParams.Acceptable.threshold_eq
    {params : NeuronParams}
    (acceptable : params.Acceptable) :
    params.threshold = (params.thresholdMantissa : Int) * FixedPoint.mantissaUnit := by
  have small := acceptable.thresholdMantissa
  have size : (1 <<< 32 : Nat) = 4294967296 := by decide
  rw [threshold, wrapSigned, size, FixedPoint.mantissaUnit]
  exact Int.bmod_eq_of_le_mul_two (by omega) (by omega)

namespace NeuronState

/-- Every register of a neuron holds a value of its range. -/
structure InRange (state : NeuronState) : Prop where
  voltage : FixedPoint.stateRange.Contains state.voltage
  current : FixedPoint.stateRange.Contains state.current
  refractory : state.refractory ≤ NeuronParams.maxRefractoryPeriod

/-- The checks find nothing exactly in a state whose registers are in range. -/
theorem violations_eq_nil_iff {position : Nat} {state : NeuronState} :
    violations position state = [] ↔ state.InRange := by
  simp only [violations, List.append_eq_nil_iff, Violation.ofRange_eq_nil_iff,
    Violation.ofMaximum_eq_nil_iff]
  constructor
  · rintro ⟨⟨voltage, current⟩, refractory⟩
    exact ⟨voltage, current, refractory⟩
  · rintro ⟨voltage, current, refractory⟩
    exact ⟨⟨voltage, current⟩, refractory⟩

theorem inRange_rest : InRange {} :=
  ⟨by decide, by decide, by decide⟩

variable {state : NeuronState} {params : NeuronParams}

/-- Integrating any input leaves all registers in range. -/
theorem inRange_integrate
    (acceptable : params.Acceptable)
    (total : Int)
    (mode : RoundingMode)
    (generator : Generator) :
    ((state.integrate total params mode).run generator).1.1.InRange := by
  have zero : FixedPoint.stateRange.Contains 0 := by decide
  simp only [integrate, Draw.run_bind]
  split
  · exact ⟨zero, Bounds.contains_clamp _ _, acceptable.refractoryPeriod.2⟩
  · exact ⟨Bounds.contains_clamp _ _, Bounds.contains_clamp _ _, Nat.zero_le _⟩

/-- A step with any input leaves all registers in range. -/
theorem InRange.update
    (inRange : state.InRange)
    (acceptable : params.Acceptable)
    (input : Int)
    (mode : RoundingMode)
    (generator : Generator) :
    ((state.update input params mode).run generator).1.1.InRange := by
  unfold NeuronState.update
  split
  · have refractory := inRange.refractory
    exact ⟨inRange.voltage, inRange.current, by simp only [Draw.run_pure]; omega⟩
  · rw [Draw.run_bind]
    exact inRange_integrate acceptable _ _ _

end NeuronState

namespace NeuronGroup

/-- The registers of all neurons of a group are in range. -/
def InRange (group : NeuronGroup) : Prop :=
  ∀ state ∈ group.states, state.InRange

theorem inRange_atRest (size : Nat) (params : NeuronParams) (generator : Generator) :
    (atRest size params generator).InRange := by
  intro state member
  rw [List.eq_of_mem_replicate member]
  exact NeuronState.inRange_rest

/-- An update leaves all registers in range. -/
theorem InRange.update
    {group : NeuronGroup}
    (inRange : group.InRange)
    (acceptable : group.params.Acceptable)
    (mode : RoundingMode) :
    (group.update mode).InRange := by
  intro state member
  rw [update_eq] at member
  obtain ⟨updated, drawn, rfl⟩ := List.mem_map.mp member
  refine Draw.forall_mem_run_mapM (·.1.InRange) ?_ _ updated drawn
  intro neuron memberNeuron generator
  exact (inRange _ (List.of_mem_zip memberNeuron).1).update acceptable _ _ _

theorem inRange_restore
    {group after : NeuronGroup}
    {states : List NeuronState}
    (accepted : group.restore states = .ok after) :
    after.InRange := by
  obtain ⟨_, valid, rfl⟩ := restore_eq_ok_iff.mp accepted
  intro state member
  obtain ⟨position, place⟩ := List.mem_iff_getElem?.mp member
  exact NeuronState.violations_eq_nil_iff.mp (checkEach_eq_nil_iff.mp valid position state place)

/-- A group whose registers are in range accepts its own states. -/
theorem InRange.restore_states {group : NeuronGroup} (inRange : group.InRange) :
    group.restore group.states = .ok (group.withStates group.states) := by
  refine restore_eq_ok_iff.mpr ⟨rfl, checkEach_eq_nil_iff.mpr fun position state place => ?_, rfl⟩
  exact NeuronState.violations_eq_nil_iff.mpr (inRange state (List.mem_of_getElem? place))

end NeuronGroup

end Neurochip
