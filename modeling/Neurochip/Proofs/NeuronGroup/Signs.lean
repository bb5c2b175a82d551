import Neurochip.Proofs.NeuronGroup.Registers
import Neurochip.Proofs.Rounding.Neighbours
import Neurochip.Proofs.Weight.Stored

namespace Neurochip

/-!
# Neurons that are only excited or only inhibited

Decay takes a value toward zero and never past it, and sums and limits keep the
side of zero of what they are made of.  The main statements say that a neuron
whose input has one sign only keeps its voltage and current on that side, and
that a neuron which is only inhibited never reaches a positive threshold.
-/

namespace SignMode

/-- On which side of zero a value lies that is made of weights of one sign. -/
structure Admits (mode : SignMode) (value : Int) : Prop where
  excitatory : mode = .excitatory → 0 ≤ value
  inhibitory : mode = .inhibitory → value ≤ 0

variable {mode : SignMode}

theorem admits_zero : mode.Admits 0 :=
  ⟨fun _ => Int.le_refl 0, fun _ => Int.le_refl 0⟩

theorem admits_excitatory_iff {value : Int} : Admits .excitatory value ↔ 0 ≤ value :=
  ⟨fun admits => admits.excitatory rfl,
    fun nonnegative => ⟨fun _ => nonnegative, fun inhibitory => by cases inhibitory⟩⟩

theorem Admits.add
    {first second : Int}
    (admitsFirst : mode.Admits first)
    (admitsSecond : mode.Admits second) :
    mode.Admits (first + second) :=
  ⟨fun excitatory =>
    Int.add_nonneg (admitsFirst.excitatory excitatory) (admitsSecond.excitatory excitatory),
  fun inhibitory =>
    Int.add_nonpos (admitsFirst.inhibitory inhibitory) (admitsSecond.inhibitory inhibitory)⟩

theorem Admits.clamp
    {bounds : Bounds}
    (zeroInside : bounds.Contains 0)
    {value : Int}
    (admits : mode.Admits value) :
    mode.Admits (bounds.clamp value) := by
  obtain ⟨rising, falling⟩ := Bounds.clamp_sign zeroInside value
  exact ⟨fun excitatory => rising (admits.excitatory excitatory),
    fun inhibitory => falling (admits.inhibitory inhibitory)⟩

/-- Decay leaves a value on its side of zero, whichever way it rounds. -/
theorem Admits.decay
    {value : Int}
    (admits : mode.Admits value)
    (rounding : RoundingMode)
    {constant : Nat}
    (proper : constant ≤ 4096)
    (generator : Generator) :
    mode.Admits ((rounding.decay value constant).run generator).1 := by
  have fraction : (constant : Int) ≤ FixedPoint.decayScale := by
    rw [FixedPoint.decayScale]
    exact_mod_cast proper
  constructor
  · intro excitatory
    have nonnegative := admits.excitatory excitatory
    exact (rounding.run_decayByRatio_between (Int.natCast_nonneg constant) (.inr fraction)
      (Int.le_refl 0) nonnegative ⟨nonnegative, Int.le_refl value⟩ generator).1
  · intro inhibitory
    have nonpositive := admits.inhibitory inhibitory
    exact (rounding.run_decayByRatio_between (Int.natCast_nonneg constant) (.inr fraction)
      nonpositive (Int.le_refl 0) ⟨Int.le_refl value, nonpositive⟩ generator).2

end SignMode

namespace NeuronState

/-- Voltage and current of a neuron are on the side of a sign. -/
structure Signed (mode : SignMode) (state : NeuronState) : Prop where
  voltage : mode.Admits state.voltage
  current : mode.Admits state.current

variable {mode : SignMode} {state : NeuronState} {params : NeuronParams}

theorem signed_rest : Signed mode {} :=
  ⟨SignMode.admits_zero, SignMode.admits_zero⟩

/-- The voltage of a neuron that integrates, before it is compared with the threshold. -/
theorem Signed.integratedVoltage
    (signed : state.Signed mode)
    (acceptable : params.Acceptable)
    {total : Int}
    (admits : mode.Admits total)
    (rounding : RoundingMode)
    (generator : Generator) :
    mode.Admits (FixedPoint.stateRange.clamp
      (((rounding.decay state.voltage params.decayVoltage).run generator).1 +
        FixedPoint.stateRange.clamp total)) :=
  have zeroInside : FixedPoint.stateRange.Contains 0 := by decide
  ((signed.voltage.decay rounding acceptable.decayVoltage generator).add
    (admits.clamp zeroInside)).clamp zeroInside

/-- A neuron that integrates a total of its sign keeps its sign. -/
theorem Signed.integrate
    (signed : state.Signed mode)
    (acceptable : params.Acceptable)
    {total : Int}
    (admits : mode.Admits total)
    (rounding : RoundingMode)
    (generator : Generator) :
    ((state.integrate total params rounding).run generator).1.1.Signed mode := by
  have current : mode.Admits (FixedPoint.stateRange.clamp total) :=
    admits.clamp (by decide)
  have voltage := signed.integratedVoltage acceptable admits rounding generator
  simp only [NeuronState.integrate, Draw.run_bind]
  split
  · exact ⟨SignMode.admits_zero, current⟩
  · exact ⟨voltage, current⟩

/-- A neuron with input of its sign keeps its sign. -/
theorem Signed.update
    (signed : state.Signed mode)
    (acceptable : params.Acceptable)
    {input : Int}
    (admits : mode.Admits input)
    (rounding : RoundingMode)
    (generator : Generator) :
    ((state.update input params rounding).run generator).1.1.Signed mode := by
  unfold NeuronState.update
  split
  · exact ⟨signed.voltage, signed.current⟩
  · rw [Draw.run_bind]
    exact signed.integrate acceptable
      ((signed.current.decay rounding acceptable.decayCurrent generator).add admits) rounding _

/-- Below a positive threshold a neuron does not spike that is only inhibited. -/
theorem Signed.silent
    (signed : state.Signed .inhibitory)
    (acceptable : params.Acceptable)
    (positive : 1 ≤ params.thresholdMantissa)
    {input : Int}
    (admits : SignMode.Admits .inhibitory input)
    (rounding : RoundingMode)
    (generator : Generator) :
    ((state.update input params rounding).run generator).1.2 = false := by
  have threshold := acceptable.threshold_eq
  rw [FixedPoint.mantissaUnit] at threshold
  unfold NeuronState.update
  split
  · rfl
  · rw [Draw.run_bind]
    generalize decays : (rounding.decay state.current params.decayCurrent).run generator = kept
    have total : SignMode.Admits .inhibitory (kept.1 + input) := by
      rw [← decays]
      exact (signed.current.decay rounding acceptable.decayCurrent generator).add admits
    have voltage :=
      (signed.integratedVoltage acceptable total rounding kept.2).inhibitory rfl
    simp only [NeuronState.integrate, Draw.run_bind]
    rw [if_neg (by omega)]
    rfl

end NeuronState

namespace NeuronGroup

/-- All neurons of a group are on the side of a sign. -/
def Signed (mode : SignMode) (group : NeuronGroup) : Prop :=
  ∀ state ∈ group.states, state.Signed mode

/-- All inputs that a group has collected are on the side of a sign. -/
def Receives (mode : SignMode) (group : NeuronGroup) : Prop :=
  ∀ input ∈ group.input.toList, mode.Admits input

variable {mode : SignMode} {group : NeuronGroup}

theorem signed_atRest (size : Nat) (params : NeuronParams) (generator : Generator) :
    (atRest size params generator).Signed mode := by
  intro state member
  rw [List.eq_of_mem_replicate member]
  exact NeuronState.signed_rest

/-- A group with input of its sign keeps its sign. -/
theorem Signed.update
    (signed : group.Signed mode)
    (receives : group.Receives mode)
    (acceptable : group.params.Acceptable)
    (rounding : RoundingMode) :
    (group.update rounding).Signed mode := by
  intro state member
  rw [update_eq] at member
  obtain ⟨updated, drawn, rfl⟩ := List.mem_map.mp member
  refine Draw.forall_mem_run_mapM (·.1.Signed mode) ?_ _ updated drawn
  rintro ⟨neuron, input⟩ memberNeuron generator
  obtain ⟨memberState, memberInput⟩ := List.of_mem_zip memberNeuron
  exact (signed neuron memberState).update acceptable (receives input memberInput) rounding
    generator

/-- Below a positive threshold no neuron of a group spikes that is only inhibited. -/
theorem Signed.lastSpikes_update
    (signed : group.Signed .inhibitory)
    (receives : group.Receives .inhibitory)
    (acceptable : group.params.Acceptable)
    (positive : 1 ≤ group.params.thresholdMantissa)
    (rounding : RoundingMode) :
    (group.update rounding).lastSpikes = [] := by
  have silent : ∀ updated ∈ ((group.updatedNeurons rounding).run group.generator).1,
      updated.2 = false := by
    refine Draw.forall_mem_run_mapM
      (fun updated : NeuronState × Bool => updated.2 = false) ?_ _
    rintro ⟨neuron, input⟩ memberNeuron generator
    obtain ⟨memberState, memberInput⟩ := List.of_mem_zip memberNeuron
    exact (signed neuron memberState).silent acceptable positive (receives input memberInput)
      rounding generator
  rw [update_eq]
  refine List.filterMap_eq_nil_iff.mpr ?_
  rintro ⟨updated, position⟩ member
  have quiet := silent updated (List.fst_mem_of_mem_zipIdx member)
  simp [quiet]

end NeuronGroup

end Neurochip
