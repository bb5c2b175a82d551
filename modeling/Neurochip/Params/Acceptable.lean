import Neurochip.Params.Validation

namespace Neurochip

/-!
# Acceptable parameters

What it means for a description to be acceptable, said without the checks: every
value is in its range, every reference is to something that exists, and no
spike source has the same event twice in a row.  The main statement says that
the checks find nothing exactly in this case.
-/

/-- A check of every item finds nothing exactly when it finds nothing at each position. -/
theorem checkEach_eq_nil_iff {check : Nat → α → List Violation} {items : List α} :
    checkEach check items = [] ↔
      ∀ position item, items[position]? = some item → check position item = [] := by
  simp only [checkEach, List.flatMap_eq_nil_iff, Prod.forall, List.mk_mem_zipIdx_iff_getElem?]
  exact ⟨fun found position item => found item position, fun found item position =>
    found position item⟩

/-- A check that does not depend on the position concerns the members of the list. -/
private theorem forall_getElem?_iff {condition : α → Prop} {items : List α} :
    (∀ (position : Nat) item, items[position]? = some item → condition item) ↔
      ∀ item ∈ items, condition item := by
  constructor
  · intro found item member
    obtain ⟨position, place⟩ := List.mem_iff_getElem?.mp member
    exact found position item place
  · intro found position item place
    exact found item (List.mem_of_getElem? place)

namespace NeuronParams

/-- Every value is in the range that neurons support. -/
structure Acceptable (params : NeuronParams) : Prop where
  refractoryPeriod : 1 ≤ params.refractoryPeriod ∧ params.refractoryPeriod ≤ 64
  thresholdMantissa : params.thresholdMantissa ≤ 131071
  decayVoltage : params.decayVoltage ≤ 4096
  decayCurrent : params.decayCurrent ≤ 4096

/-- The checks find nothing exactly in acceptable parameters. -/
theorem violations_eq_nil_iff {params : NeuronParams} {path : Path} :
    params.violations path = [] ↔ params.Acceptable := by
  simp only [violations, List.append_eq_nil_iff, Violation.ofRange_eq_nil_iff,
    Violation.ofMaximum_eq_nil_iff, refractoryRange, maxRefractoryPeriod, Bounds.Contains,
    maxThresholdMantissa, FixedPoint.decayScale]
  constructor
  · rintro ⟨⟨⟨period, threshold⟩, voltage⟩, current⟩
    exact ⟨by omega, threshold, voltage, current⟩
  · rintro ⟨period, threshold, voltage, current⟩
    exact ⟨⟨⟨by omega, threshold⟩, voltage⟩, current⟩

end NeuronParams

namespace SpikeEvent

/-- No event equals the one after it. -/
def Distinct (events : List SpikeEvent) : Prop :=
  ∀ position event, events[position]? = some event → events[position + 1]? ≠ some event

/-- No repeated event is listed exactly when neighbouring events differ. -/
theorem repeated_eq_nil_iff {events : List SpikeEvent} :
    repeated events = [] ↔ Distinct events := by
  induction events with
  | nil => simp [repeated, Distinct]
  | cons event rest inductionHypothesis =>
      cases rest with
      | nil => simp [repeated, Distinct]
      | cons next rest =>
          simp only [repeated]
          constructor
          · intro found
            split at found
            · cases found
            · rename_i different
              intro position other place
              cases position with
              | zero =>
                  simp only [List.getElem?_cons_zero, Option.some.injEq] at place
                  subst place
                  simpa using fun same => different same.symm
              | succ position =>
                  exact (inductionHypothesis.mp found) position other (by simpa using place)
          · intro distinct
            have different : event ≠ next := by
              intro same
              exact distinct 0 event rfl (by simp [same])
            rw [if_neg different]
            exact inductionHypothesis.mpr fun position other place =>
              distinct (position + 1) other (by simpa using place)

end SpikeEvent

namespace SpikeSourceParams

/-- All spikes are those of existing neurons within the period, and no event follows itself. -/
structure Acceptable (params : SpikeSourceParams) : Prop where
  indices : ∀ index ∈ params.indices, index < params.size
  times : 0 < params.period → ∀ time ∈ params.times, time < params.period
  events : SpikeEvent.Distinct params.events

/-- The checks find nothing exactly in an acceptable source. -/
theorem violations_eq_nil_iff {params : SpikeSourceParams} {path : Path} :
    params.violations path = [] ↔ params.Acceptable := by
  simp only [violations, List.append_eq_nil_iff, checkEach_eq_nil_iff,
    Violation.ofLimit_eq_nil_iff, List.map_eq_nil_iff, SpikeEvent.repeated_eq_nil_iff,
    forall_getElem?_iff]
  constructor
  · rintro ⟨⟨indices, times⟩, events⟩
    refine ⟨indices, fun positive => ?_, events⟩
    rw [if_neg (by omega)] at times
    simpa only [checkEach_eq_nil_iff, Violation.ofLimit_eq_nil_iff, forall_getElem?_iff]
      using times
  · rintro ⟨indices, times, events⟩
    refine ⟨⟨indices, ?_⟩, events⟩
    split
    · rfl
    · rename_i positive
      simpa only [checkEach_eq_nil_iff, Violation.ofLimit_eq_nil_iff, forall_getElem?_iff]
        using times (by omega)

end SpikeSourceParams

namespace SynapseParams

/-- Every value is in the range that synapses support. -/
structure Acceptable (params : SynapseParams) : Prop where
  delay : params.delay ≤ 62
  weightExponent : -8 ≤ params.weightExponent ∧ params.weightExponent ≤ 7
  weightBits : params.weightBits ≤ 8
  impulses : ∀ channel, (params.traces.get channel).impulse ≤ 127

/-- The checks find nothing exactly in acceptable parameters. -/
theorem violations_eq_nil_iff {params : SynapseParams} {path : Path} :
    params.violations path = [] ↔ params.Acceptable := by
  simp only [violations, List.append_eq_nil_iff, Violation.ofRange_eq_nil_iff,
    Violation.ofMaximum_eq_nil_iff, List.flatMap_eq_nil_iff, exponentRange, Bounds.Contains,
    maxDelay, maxWeightBits, maxImpulse]
  constructor
  · rintro ⟨⟨⟨delay, exponent⟩, bits⟩, impulses⟩
    exact ⟨delay, exponent, bits, fun channel =>
      impulses channel (by cases channel <;> decide)⟩
  · rintro ⟨delay, exponent, bits, impulses⟩
    exact ⟨⟨⟨delay, exponent⟩, bits⟩, fun channel _ => impulses channel⟩

end SynapseParams

namespace SignMode

/-- The checks find nothing exactly when the sign allows every mantissa. -/
theorem violations_eq_nil_iff {mode : SignMode} {path : Path} {mantissas : List Int} :
    mode.violations path mantissas = [] ↔
      ∀ mantissa ∈ mantissas, mode.range.Contains mantissa := by
  have single : ∀ (violation : Violation) (mantissa : Int),
      (if mode.range.Contains mantissa then [] else [violation]) = [] ↔
        mode.range.Contains mantissa := by
    intro violation mantissa
    split <;> simp_all
  simp only [violations, checkEach_eq_nil_iff, single, forall_getElem?_iff]

end SignMode

namespace SynapseGroupParams

/--
Source and target exist, every connection is between neurons of theirs, the sign
allows every weight, and the parameters are acceptable.
-/
structure Acceptable (params : SynapseGroupParams) (network : NetworkParams) : Prop where
  source : ∃ size, network.sourceSize? params.source = some size ∧
    ∀ connection ∈ params.connections, connection.pre < size
  target : ∃ size, network.targetSize? params.target = some size ∧
    ∀ connection ∈ params.connections, connection.post < size
  weights : ∀ connection ∈ params.connections,
    params.synapse.signMode.range.Contains connection.weight
  synapse : params.synapse.Acceptable

/-- The checks find nothing exactly in an acceptable group. -/
theorem violations_eq_nil_iff
    {params : SynapseGroupParams}
    {path : Path}
    {network : NetworkParams} :
    params.violations path network = [] ↔ params.Acceptable network := by
  simp only [violations, List.append_eq_nil_iff, checkEach_eq_nil_iff,
    SignMode.violations_eq_nil_iff, SynapseParams.violations_eq_nil_iff, Connection.violations,
    weights, List.forall_mem_map]
  constructor
  · rintro ⟨⟨⟨⟨source, target⟩, ends⟩, weights⟩, synapse⟩
    cases sourceSize : network.sourceSize? params.source with
    | none => simp [sourceSize] at source
    | some sources =>
        cases targetSize : network.targetSize? params.target with
        | none => simp [targetSize] at target
        | some targets =>
            simp only [sourceSize, targetSize, Violation.ofLimit_eq_nil_iff,
              forall_getElem?_iff] at ends
            exact ⟨⟨sources, sourceSize, fun connection member => (ends connection member).1⟩,
              ⟨targets, targetSize, fun connection member => (ends connection member).2⟩,
              weights, synapse⟩
  · rintro ⟨⟨sources, sourceSize, pres⟩, ⟨targets, targetSize, posts⟩, weights, synapse⟩
    simp only [sourceSize, targetSize, Violation.ofLimit_eq_nil_iff, forall_getElem?_iff]
    exact ⟨⟨⟨⟨by simp, by simp⟩, fun connection member =>
      ⟨pres connection member, posts connection member⟩⟩, weights⟩, synapse⟩

end SynapseGroupParams

namespace TechnicalParams

/-- At least one thread and no more than there are processors. -/
def Acceptable (params : TechnicalParams) (processors : Nat) : Prop :=
  1 ≤ params.threads ∧ params.threads ≤ processors

/-- The checks find nothing exactly in acceptable parameters. -/
theorem violations_eq_nil_iff {params : TechnicalParams} {processors : Nat} :
    params.violations processors = [] ↔ params.Acceptable processors := by
  unfold violations Acceptable
  split
  · simp
    omega
  · split
    · simp
      omega
    · simp
      omega

end TechnicalParams

namespace NetworkParams

/-- Every part of the description is acceptable. -/
structure Acceptable (params : NetworkParams) (processors : Nat) : Prop where
  neuronGroups : ∀ group ∈ params.neuronGroups, group.neuron.Acceptable
  spikeSources : ∀ source ∈ params.spikeSources, source.Acceptable
  synapseGroups : ∀ group ∈ params.synapseGroups, group.Acceptable params
  technical : params.technical.Acceptable processors

/-- The checks find nothing exactly in an acceptable description. -/
theorem violations_eq_nil_iff {params : NetworkParams} {processors : Nat} :
    params.violations processors = [] ↔ params.Acceptable processors := by
  simp only [violations, List.append_eq_nil_iff, checkEach_eq_nil_iff,
    NeuronParams.violations_eq_nil_iff, SpikeSourceParams.violations_eq_nil_iff,
    SynapseGroupParams.violations_eq_nil_iff, TechnicalParams.violations_eq_nil_iff,
    forall_getElem?_iff]
  constructor
  · rintro ⟨⟨⟨neurons, sources⟩, synapses⟩, technical⟩
    exact ⟨neurons, sources, synapses, technical⟩
  · rintro ⟨neurons, sources, synapses, technical⟩
    exact ⟨⟨⟨neurons, sources⟩, synapses⟩, technical⟩

end NetworkParams

end Neurochip
