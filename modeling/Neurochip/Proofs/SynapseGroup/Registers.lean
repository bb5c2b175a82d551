import Neurochip.Params.Acceptable
import Neurochip.Proofs.Rounding.Neighbours
import Neurochip.Proofs.SynapseGroup.Operations
import Neurochip.Proofs.Weight.Grid

namespace Neurochip

/-!
# The registers of synapses

Traces stay in their registers and weights on the grid of their group, whatever
is sent through a synapse group and whichever weights are set.  These are the
conditions on a saved state, so a group accepts its own states.
-/

namespace Traces

/-- Every trace is in the range of its register. -/
def InRange (traces : Traces) : Prop :=
  ∀ channel, range.Contains (traces.get channel)

theorem inRange_zero : InRange zero := by
  intro channel
  cases channel <;> decide

theorem contains_decayByRatio
    {value : Int}
    (contained : range.Contains value)
    (mode : RoundingMode)
    (tau : Nat)
    (generator : Generator) :
    range.Contains ((mode.decayByRatio value 1 tau).run generator).1 :=
  mode.run_decayByRatio_between (by decide) (by omega) (by decide) (by decide) contained generator

/-- Traces that decay stay in range. -/
theorem InRange.decay
    {traces : Traces}
    (inRange : traces.InRange)
    (params : Channels TraceParams)
    (mode : RoundingMode)
    (generator : Generator) :
    InRange ((traces.decay params mode).run generator).1 := by
  intro channel
  simp only [Traces.decay, Draw.run_bind, Draw.run_pure]
  cases channel with
  | x1 => exact contains_decayByRatio (inRange .x1) mode _ _
  | x2 => exact contains_decayByRatio (inRange .x2) mode _ _
  | y1 => exact contains_decayByRatio (inRange .y1) mode _ _
  | y2 => exact contains_decayByRatio (inRange .y2) mode _ _
  | y3 => exact contains_decayByRatio (inRange .y3) mode _ _

/-- Impulses leave traces in range. -/
theorem InRange.raisedBy
    {traces : Traces}
    (inRange : traces.InRange)
    (params : Channels TraceParams)
    (arrived spiked : Bool) :
    InRange (traces.raisedBy params arrived spiked) := by
  intro channel
  obtain ⟨lower, upper⟩ := inRange channel
  have zero : range.lower = 0 := rfl
  have top : range.upper = 127 := rfl
  rw [Traces.raisedBy, Channels.get_ofFn]
  generalize (if channel.isPre then arrived else spiked) = happened
  cases happened with
  | false => exact ⟨lower, upper⟩
  | true =>
      rw [if_pos rfl]
      exact ⟨by omega, by omega⟩

end Traces

namespace Synapse

/-- The weight of a synapse is one that its group can store, and its traces are in range. -/
structure InRange (quantizer : Quantizer) (synapse : Synapse) : Prop where
  mantissa : quantizer.signMode.range.Contains synapse.weight.mantissa
  stored : quantizer.quantize synapse.weight.mantissa = synapse.weight
  traces : synapse.traces.InRange

/-- A stored weight is one that can be stored. -/
theorem inRange_of_quantized
    {quantizer : Quantizer}
    {synapse : Synapse}
    {mantissa : Int}
    (quantized : synapse.weight = quantizer.quantize mantissa)
    (traces : synapse.traces.InRange) :
    synapse.InRange quantizer := by
  refine ⟨?_, ?_, traces⟩
  · rw [quantized]
    exact quantizer.contains_onGrid mantissa
  · rw [quantized]
    exact quantizer.quantize_mantissa_quantize mantissa

theorem inRange_ofConnection (quantizer : Quantizer) (connection : Connection) :
    (ofConnection quantizer connection).InRange quantizer :=
  inRange_of_quantized rfl Traces.inRange_zero

/-- The checks find nothing exactly in a state of this connection that leaves the synapse in
range. -/
theorem violations_eq_nil_iff
    {synapse : Synapse}
    {quantizer : Quantizer}
    {position : Nat}
    {state : SynapseState} :
    synapse.violations quantizer position state = [] ↔
      (state.pre = synapse.pre ∧ state.post = synapse.post) ∧
      (synapse.restore state).InRange quantizer := by
  have traces : (Channel.all.flatMap fun channel =>
        Violation.ofRange
          ([.field "synapse_states", .item position] ++ [.field "traces", .field channel.name])
          Traces.range (state.traces.get channel)) = [] ↔
      state.traces.InRange := by
    simp only [List.flatMap_eq_nil_iff, Violation.ofRange_eq_nil_iff]
    exact ⟨fun found channel => found channel (by cases channel <;> decide),
      fun inRange channel _ => inRange channel⟩
  rw [violations, List.append_eq_nil_iff, List.append_eq_nil_iff, traces]
  constructor
  · rintro ⟨⟨ends, weight⟩, inRange⟩
    split at ends
    · rename_i same
      split at weight
      · rename_i contained
        split at weight
        · rename_i stored
          exact ⟨same, contained, stored, inRange⟩
        · cases weight
      · rename_i outside
        exact absurd (Violation.ofRange_eq_nil_iff.mp weight) outside
    · cases ends
  · rintro ⟨same, contained, stored, inRange⟩
    have contained : quantizer.signMode.range.Contains state.mantissa := contained
    have stored : quantizer.quantize state.mantissa = ⟨state.mantissa, state.actual⟩ := stored
    refine ⟨⟨by rw [if_pos same], by rw [if_pos contained, if_pos stored]⟩, inRange⟩

end Synapse

namespace SynapseGroup

/-- All synapses of a group are in range. -/
def InRange (group : SynapseGroup) : Prop :=
  ∀ synapse ∈ group.synapses.toList, synapse.InRange group.quantizer

variable {group after : SynapseGroup}

theorem inRange_atRest
    (params : SynapseGroupParams)
    (rule : Option LearningRule)
    (generator : Generator) :
    (atRest params rule generator).InRange := by
  intro synapse member
  obtain ⟨connection, _, rfl⟩ := List.mem_map.mp member
  exact Synapse.inRange_ofConnection _ connection

theorem InRange.decayedTraces
    (inRange : group.InRange)
    (mode : RoundingMode)
    (generator : Generator) :
    ∀ traces ∈ ((group.decayedTraces mode).run generator).1, Traces.InRange traces := by
  refine Draw.forall_mem_run_mapM Traces.InRange ?_ generator
  intro traces member generator
  obtain ⟨synapse, memberSynapse, rfl⟩ := List.mem_map.mp member
  exact (inRange synapse memberSynapse).traces.decay _ _ _

/-- A step leaves all synapses in range. -/
theorem InRange.stepped
    (inRange : group.InRange)
    (indexed : group.wiring.Indexed)
    (settled : group.Settled)
    (stimulus : Stimulus)
    (mode : RoundingMode) :
    (group.stepped stimulus mode).2.InRange := by
  have sameWiring := wiring_stepped group stimulus mode
  have params : (group.stepped stimulus mode).2.params = group.params :=
    congrArg Wiring.params sameWiring
  have sameLength := congrArg (·.ends.length) sameWiring
  simp only [wiring, endsOf, List.length_map, Array.length_toList] at sameLength
  intro synapse member
  obtain ⟨position, place⟩ := List.mem_iff_getElem?.mp member
  rw [Array.getElem?_toList] at place
  obtain ⟨before, found⟩ : ∃ before, group.synapses[position]? = some before := by
    have inside := (Array.getElem?_eq_some_iff.mp place).1
    exact ⟨_, Array.getElem?_eq_getElem (sameLength ▸ inside)⟩
  have inRangeBefore := inRange before (mem_toList_of_getElem? found)
  obtain ⟨decayed, decays⟩ := exists_decayedTraces mode found
  obtain ⟨final, stepped, outcome⟩ := outcome_stepped indexed settled stimulus mode found decays
  rw [stepped] at place
  obtain rfl := Option.some.inj place
  have traces : final.traces.InRange := by
    rw [outcome.traces]
    exact (inRange.decayedTraces mode _ decayed (List.mem_of_getElem? decays)).raisedBy _ _ _
  rw [quantizer, params, ← quantizer]
  by_cases learns : ∃ rule, group.rule = some rule ∧
      rule.isTriggered (group.hears stimulus before) (answers stimulus before) = true
  · obtain ⟨rule, present, triggered⟩ := learns
    exact Synapse.inRange_of_quantized (outcome.learned rule present triggered) traces
  · have kept := outcome.kept fun rule present => by
      cases triggered : rule.isTriggered _ _ with
      | false => rfl
      | true => exact absurd ⟨rule, present, triggered⟩ learns
    exact ⟨by rw [kept]; exact inRangeBefore.mantissa, by rw [kept]; exact inRangeBefore.stored,
      traces⟩

theorem InRange.setWeights
    (inRange : group.InRange)
    {mantissas : List Int}
    (accepted : group.setWeights mantissas = .ok after) :
    after.InRange := by
  obtain ⟨_, _, rfl⟩ := setWeights_eq_ok_iff.mp accepted
  intro synapse member
  obtain ⟨before, memberBefore, mantissa, _, rfl⟩ := exists_of_mem_zipWith member
  exact Synapse.inRange_of_quantized rfl (inRange before memberBefore).traces

/-- Restored synapses are in range. -/
theorem inRange_restore
    {states : List SynapseState}
    (accepted : group.restore states = .ok after) :
    after.InRange := by
  obtain ⟨_, valid, rfl⟩ := restore_eq_ok_iff.mp accepted
  intro synapse member
  obtain ⟨position, place⟩ := List.mem_iff_getElem?.mp member
  obtain ⟨before, state, found, saved, rfl⟩ := List.getElem?_zipWith_eq_some.mp place
  have checked := checkEach_eq_nil_iff.mp valid position (before, state)
    (List.getElem?_zip_eq_some.mpr ⟨found, saved⟩)
  exact (Synapse.violations_eq_nil_iff.mp checked).2

/-- A group whose synapses are in range accepts its own states and is the same afterwards. -/
theorem InRange.restore_states (inRange : group.InRange) :
    group.restore group.states = .ok group := by
  refine restore_eq_ok_iff.mpr ⟨by simp [size, states], checkEach_eq_nil_iff.mpr ?_, ?_⟩
  · rintro position ⟨synapse, state⟩ place
    obtain ⟨found, saved⟩ := List.getElem?_zip_eq_some.mp place
    rw [states, List.getElem?_map, found] at saved
    have own : synapse.state = state := Option.some.inj saved
    subst own
    exact Synapse.violations_eq_nil_iff.mpr
      ⟨⟨rfl, rfl⟩, inRange synapse (List.mem_of_getElem? found)⟩
  · have same : List.zipWith Synapse.restore group.synapses.toList group.states =
        group.synapses.toList := by
      rw [states, List.zipWith_map_right, List.zipWith_self]
      exact List.map_id _
    rw [withStates, same]

end SynapseGroup

end Neurochip
