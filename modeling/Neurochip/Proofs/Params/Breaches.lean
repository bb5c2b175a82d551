import Neurochip.Proofs.Params.GroupBreaches
import Neurochip.Proofs.Params.SourceBreaches

namespace Neurochip

/-!
# Every broken constraint is listed once

The constraints of a description are those of its groups and sources, and that
of its threads.  The main statement says that the checks list one violation for
each constraint that is broken, no more and no less, and that they go through
neuron groups, spike sources, synapse groups and technical parameters in this
order.
-/

/-- The violation that says that an event of the source with the given index is repeated. -/
def SpikeEvent.repetition (event : SpikeEvent) (source : Nat) : Violation :=
  .repeatedEvent [.field "spike_sources", .item source, .field "indices"] event.index event.time

namespace NetworkParams

/-- What is constrained of a description: each of its groups and sources, and the threads. -/
inductive Constraint where
  | neuronGroup (index : Nat) (constraint : NeuronParams.Constraint)
  | spikeSource (index : Nat) (constraint : SpikeSourceParams.Constraint)
  | synapseGroup (index : Nat) (constraint : SynapseGroupParams.Constraint)
  | threads
  deriving Repr, DecidableEq

/-- The place of a constraint in the order in which violations are listed: neuron groups, spike
sources, synapse groups, technical parameters, and in each of these by index. -/
def Constraint.rank : Constraint → List Nat
  | neuronGroup index constraint => 0 :: index :: constraint.rank
  | spikeSource index constraint => 1 :: index :: constraint.rank
  | synapseGroup index constraint => 2 :: index :: constraint.rank
  | threads => [3]

/-- The description breaks a constraint on a machine with the given number of processors, and the
violation says so. -/
def Breaks (params : NetworkParams) (processors : Nat) : Constraint → Violation → Prop
  | .neuronGroup index constraint, violation =>
      ∃ group, params.neuronGroups[index]? = some group ∧
        group.neuron.Breaks [.field "neuron_groups", .item index, .field "neuron_params"]
          constraint violation
  | .spikeSource index constraint, violation =>
      ∃ source, params.spikeSources[index]? = some source ∧
        source.Breaks [.field "spike_sources", .item index] constraint violation
  | .synapseGroup index constraint, violation =>
      ∃ group, params.synapseGroups[index]? = some group ∧
        group.Breaks [.field "synapse_groups", .item index] params constraint violation
  | .threads, violation =>
      (params.technical.threads = 0 ∧ violation = .noThreads) ∨
        (processors < params.technical.threads ∧ violation = .tooManyThreads)

variable (params : NetworkParams) (processors : Nat)

theorem listing_neuronGroups :
    Listing (fun constraint => ∃ index inner, constraint = .neuronGroup index inner)
      (params.Breaks processors) Constraint.rank
      (checkEach
        (fun index group =>
          group.neuron.violations [.field "neuron_groups", .item index, .field "neuron_params"])
        params.neuronGroups) :=
  Listing.checkEach_wrap (fun _ group => group.neuron.listing_violations _)
    Constraint.neuronGroup (fun _ _ _ => Iff.rfl) fun _ _ => rfl

theorem listing_spikeSources :
    Listing (fun constraint => ∃ index inner, constraint = .spikeSource index inner)
      (params.Breaks processors) Constraint.rank
      (checkEach (fun index source => source.violations [.field "spike_sources", .item index])
        params.spikeSources) :=
  Listing.checkEach_wrap (fun _ source => source.listing_violations _)
    Constraint.spikeSource (fun _ _ _ => Iff.rfl) fun _ _ => rfl

theorem listing_synapseGroups :
    Listing (fun constraint => ∃ index inner, constraint = .synapseGroup index inner)
      (params.Breaks processors) Constraint.rank
      (checkEach
        (fun index group => group.violations [.field "synapse_groups", .item index] params)
        params.synapseGroups) :=
  Listing.checkEach_wrap (fun _ group => group.listing_violations _ _)
    Constraint.synapseGroup (fun _ _ _ => Iff.rfl) fun _ _ => rfl

theorem listing_technical :
    Listing (· = .threads) (params.Breaks processors) Constraint.rank
      (params.technical.violations processors) := by
  unfold TechnicalParams.violations
  split
  · rename_i none
    exact Listing.broken fun violation => by simp [Breaks, none]
  · rename_i some
    split
    · rename_i many
      exact Listing.broken fun violation => by simp [Breaks, some, many]
    · rename_i few
      exact Listing.kept fun violation => by simp [Breaks, some, few]

theorem listing_violations :
    Listing (fun _ => True) (params.Breaks processors) Constraint.rank
      (params.violations processors) := by
  refine ((((params.listing_neuronGroups processors).append
    (params.listing_spikeSources processors) ?_).append
    (params.listing_synapseGroups processors) ?_).append
    (params.listing_technical processors) ?_).congr ?_
  · rintro _ _ ⟨index, inner, rfl⟩ ⟨later, other, rfl⟩
    simp [Constraint.rank, List.cons_lt_cons_iff]
  · rintro _ _ (⟨index, inner, rfl⟩ | ⟨index, inner, rfl⟩) ⟨later, other, rfl⟩ <;>
      simp [Constraint.rank, List.cons_lt_cons_iff]
  · rintro _ _ ((⟨index, inner, rfl⟩ | ⟨index, inner, rfl⟩) | ⟨index, inner, rfl⟩) rfl <;>
      simp [Constraint.rank, List.cons_lt_cons_iff]
  · rintro (_ | _ | _ | _) <;> simp

/-- An event of a source that sorts its events is listed once less than it occurs. -/
theorem count_repetition
    {index : Nat}
    {source : SpikeSourceParams}
    (found : params.spikeSources[index]? = some source)
    (unsorted : source.sorted = false)
    (event : SpikeEvent) :
    (params.violations processors).count (event.repetition index) =
      (List.zipWith SpikeEvent.mk source.times source.indices).count event - 1 := by
  have neurons : event.repetition index ∉ checkEach _ params.neuronGroups := fun member => by
    obtain ⟨_, ⟨_, _, rfl⟩, _, _, breach⟩ :=
      (params.listing_neuronGroups processors).exists_of_mem member
    exact NeuronParams.not_breaks_repeatedEvent breach
  have synapses : event.repetition index ∉ checkEach _ params.synapseGroups := fun member => by
    obtain ⟨_, ⟨_, _, rfl⟩, _, _, breach⟩ :=
      (params.listing_synapseGroups processors).exists_of_mem member
    exact SynapseGroupParams.not_breaks_repeatedEvent breach
  have technical : event.repetition index ∉ params.technical.violations processors :=
    fun member => by
      obtain ⟨_, rfl, ⟨_, impossible⟩ | ⟨_, impossible⟩⟩ :=
        (params.listing_technical processors).exists_of_mem member <;>
      cases impossible
  have nodup : params.spikeSources.zipIdx.Nodup :=
    (pairwise_zipIdx _).imp fun before => ne_of_apply_ne Prod.snd before.ne
  -- The place of the violation is within the source with this index, and within no other one.
  have elsewhere : ∀ entry ∈ params.spikeSources.zipIdx,
      event.repetition index ∈ entry.1.violations [.field "spike_sources", .item entry.2] →
      entry = (source, index) := by
    rintro ⟨other, otherIndex⟩ member listed
    have place := List.mk_mem_zipIdx_iff_getElem?.mp member
    obtain rfl : index = otherIndex := by
      simpa using SpikeSourceParams.path_of_mem_violations listed
    rw [Option.some.inj (place.symm.trans found)]
  have sources := (count_flatMap_of_unique nodup (List.mk_mem_zipIdx_iff_getElem?.mpr found)
    elsewhere).trans (source.count_repeatedEvent [.field "spike_sources", .item index] event)
  rw [violations, List.count_append, List.count_append, List.count_append,
    List.count_eq_zero.mpr neurons, List.count_eq_zero.mpr synapses,
    List.count_eq_zero.mpr technical, Nat.zero_add, Nat.add_zero]
  calc
    _ = (SpikeEvent.repeated source.events).count event := sources
    _ = source.events.count event - 1 :=
      SpikeEvent.count_repeated (SpikeSourceParams.pairwise_events unsorted) event
    _ = _ := by
      rw [SpikeSourceParams.events, unsorted]
      exact congrArg (· - 1) ((List.mergeSort_perm _ _).count_eq event)

/-- The checks find nothing exactly in an acceptable description.  Otherwise they list one violation
for each constraint that is broken, in the order of the constraints; in particular, an event that
occurs several times in a source that sorts its events is listed once less. -/
theorem violations_list_every_breach :
    (params.violations processors = [] ↔ params.Acceptable processors) ∧
    (∃ broken : List Constraint,
      (∀ constraint, constraint ∈ broken ↔
        ∃ violation, params.Breaks processors constraint violation) ∧
      (broken.Pairwise fun first second => first.rank < second.rank) ∧
      List.Forall₂ (params.Breaks processors) broken (params.violations processors)) ∧
    ∀ index source event, params.spikeSources[index]? = some source → source.sorted = false →
      (params.violations processors).count (event.repetition index) =
        (List.zipWith SpikeEvent.mk source.times source.indices).count event - 1 := by
  refine ⟨violations_eq_nil_iff, ?_, fun index source event found unsorted =>
    params.count_repetition processors found unsorted event⟩
  obtain ⟨broken, ordered, matching, _, complete⟩ := params.listing_violations processors
  refine ⟨broken, fun constraint => ⟨fun member => ?_, fun ⟨violation, breach⟩ =>
    complete constraint violation trivial breach⟩, ordered, matching⟩
  obtain ⟨violation, _, breach⟩ := exists_of_mem_forall₂ matching.flip member
  exact ⟨violation, breach⟩

/-- Two values of neurons, an event that occurs three times, and no threads. -/
example :
    (violations
      { neuronGroups := [{ size := 2, neuron := { refractoryPeriod := 0, decayCurrent := 5000 } }]
        spikeSources := [{ size := 2, indices := [1, 0, 1, 1], times := [3, 3, 3, 3] }]
        technical := { threads := 0 } }
      1).map Violation.message =
      ["neuron_groups[0].neuron_params.refractory_period has to be between 1 and 64, got 0",
        "neuron_groups[0].neuron_params.decay_i has to be between 0 and 4096, got 5000",
        "spike_sources[0].indices contains index 1 more than once at time 3",
        "spike_sources[0].indices contains index 1 more than once at time 3",
        "technical_params.num_threads must be strictly positive"] := by
  cbv

end NetworkParams

end Neurochip
