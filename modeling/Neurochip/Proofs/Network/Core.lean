import Neurochip.Proofs.Network.Layout
import Neurochip.Proofs.SynapseGroup.Core

namespace Neurochip

/-!
# What the steps of a network depend on

The core of a network leaves out its generators, the places at which its delay
lines are entered, what its sources emitted last, and the time of its next step.
The main statement says that, when rounding draws nothing, networks with the same
core report the same step, and that their cores are the same again afterwards.
-/

/-- What is the same for items with the same key is the same for lists of them. -/
theorem map_eq_of_map_eq
    {key : α → γ}
    {left right : α → δ}
    {firsts seconds : List α}
    (determined : ∀ first ∈ firsts, ∀ second ∈ seconds,
      key first = key second → left first = right second)
    (same : firsts.map key = seconds.map key) :
    firsts.map left = seconds.map right := by
  induction firsts generalizing seconds with
  | nil => rw [List.map_eq_nil_iff.mp same.symm, List.map_nil, List.map_nil]
  | cons first rest inductionHypothesis =>
      cases seconds with
      | nil => cases same
      | cons second rest =>
          obtain ⟨here, later⟩ := List.cons.inj same
          have others := inductionHypothesis
            (fun item memberItem other memberOther =>
              determined item (.tail _ memberItem) other (.tail _ memberOther))
            later
          rw [List.map_cons, List.map_cons, others,
            determined first List.mem_cons_self second List.mem_cons_self here]

/-- Lists with the same keys have items at the same positions, with the same keys. -/
theorem getElem?_of_map_eq
    {key : α → γ}
    {firsts seconds : List α}
    (same : firsts.map key = seconds.map key)
    (position : Nat) :
    (firsts[position]? = none ∧ seconds[position]? = none) ∨
      ∃ first second, firsts[position]? = some first ∧ seconds[position]? = some second ∧
        key first = key second := by
  have here := congrArg (·[position]?) same
  simp only [List.getElem?_map] at here
  cases foundFirst : firsts[position]? with
  | none =>
      rw [foundFirst, Option.map_none, eq_comm, Option.map_eq_none_iff] at here
      exact .inl ⟨rfl, here⟩
  | some first =>
      rw [foundFirst, Option.map_some, eq_comm, Option.map_eq_some_iff] at here
      obtain ⟨second, foundSecond, sameKey⟩ := here
      exact .inr ⟨first, second, rfl, foundSecond, sameKey.symm⟩

namespace NeuronGroup

/-- What the next steps of a neuron group depend on. -/
structure Core where
  params : NeuronParams
  states : List NeuronState
  input : Array Int
  lastSpikes : List Nat

/-- The core of a group: all of it but its generator. -/
def core (group : NeuronGroup) : Core :=
  { params := group.params
    states := group.states
    input := group.input
    lastSpikes := group.lastSpikes }

variable {first second : NeuronGroup}

theorem core_addInputs
    (same : first.core = second.core)
    (deliveries : List Delivery) :
    (first.addInputs deliveries).core = (second.addInputs deliveries).core := by
  cases first
  cases second
  simp_all [core, addInputs]

theorem wordless_updatedNeurons
    {mode : RoundingMode}
    (deterministic : mode ≠ .stochastic)
    (group : NeuronGroup) :
    Draw.Wordless (group.updatedNeurons mode) :=
  Draw.wordless_mapM
    (fun (state, input) => NeuronState.wordless_update deterministic state input _) _

/-- An update without draws leaves the generator where it is. -/
theorem generator_update
    {mode : RoundingMode}
    (deterministic : mode ≠ .stochastic)
    (group : NeuronGroup) :
    (group.update mode).generator = group.generator := by
  rw [update_eq]
  exact (wordless_updatedNeurons deterministic group).run_snd _

/-- Groups with the same core are updated in the same way. -/
theorem core_update
    {mode : RoundingMode}
    (deterministic : mode ≠ .stochastic)
    (same : first.core = second.core) :
    (first.update mode).core = (second.update mode).core := by
  have params : first.params = second.params := congrArg Core.params same
  have states : first.states = second.states := congrArg Core.states same
  have input : first.input = second.input := congrArg Core.input same
  have fixed : Draw.Fixed (first.updatedNeurons mode) :=
    (wordless_updatedNeurons deterministic first).fixed
  have sameUpdate : first.updatedNeurons mode = second.updatedNeurons mode := by
    rw [updatedNeurons, updatedNeurons, params, states, input]
  rw [update_eq, update_eq, ← sameUpdate, fixed first.generator second.generator]
  simp only [core, params, input]

end NeuronGroup

namespace Network

/-- What the next steps of a network depend on. -/
structure Core where
  neuronGroups : List NeuronGroup.Core
  spikeSources : List SpikeSource
  synapseGroups : List SynapseGroup.Core
  rounding : RoundingMode

def core (network : Network) : Core :=
  { neuronGroups := network.neuronGroups.map (·.core)
    spikeSources := network.spikeSources.map (·.quiet)
    synapseGroups := network.synapseGroups.map (·.core)
    rounding := network.rounding }

/-- All delays are within the reach of their delay lines. -/
def WithinReach (network : Network) : Prop :=
  ∀ group ∈ network.synapseGroups, group.params.delay < group.inFlight.length

theorem WithinReach.next
    {network : Network}
    (within : network.WithinReach)
    (time : Nat) :
    (network.next time).WithinReach := by
  intro group member
  obtain ⟨before, memberBefore, rfl⟩ := List.mem_map.mp member
  have sameWiring := wiring_steppedGroup network time before
  have delay := congrArg (·.params.delay) sameWiring
  have reach := congrArg SynapseGroup.Wiring.reach sameWiring
  simp only [SynapseGroup.wiring] at delay reach
  rw [delay, reach]
  exact within before memberBefore

variable {first second : Network}

/-- The last spikes of all objects are those of the neuron groups and the sources, in order. -/
theorem lastSpikes_congr
    (neurons : first.neuronGroups.map (·.lastSpikes) = second.neuronGroups.map (·.lastSpikes))
    (sources : first.spikeSources = second.spikeSources)
    (source : SourceRef) :
    first.lastSpikes source = second.lastSpikes source := by
  cases source with
  | neuronGroup group =>
      unfold lastSpikes
      rcases getElem?_of_map_eq neurons group with
        ⟨foundFirst, foundSecond⟩ | ⟨_, _, foundFirst, foundSecond, same⟩
      · simp only [foundFirst, foundSecond]
      · simp only [foundFirst, foundSecond, same]
  | spikeSource source =>
      unfold lastSpikes
      rw [sources]

theorem groupSize_congr
    (neurons : first.neuronGroups.map (·.size) = second.neuronGroups.map (·.size))
    (group : Nat) :
    first.groupSize group = second.groupSize group := by
  unfold groupSize
  rcases getElem?_of_map_eq neurons group with
    ⟨foundFirst, foundSecond⟩ | ⟨_, _, foundFirst, foundSecond, same⟩
  · simp only [foundFirst, foundSecond]
  · simp only [foundFirst, foundSecond, same]

theorem firedSpikes_congr
    (neurons : first.neuronGroups.map (·.lastSpikes) = second.neuronGroups.map (·.lastSpikes)) :
    first.firedSpikes = second.firedSpikes := by
  have spikes : ∀ network : Network, network.firedSpikes =
      (network.neuronGroups.map (·.lastSpikes)).zipIdx.map fun (spikes, index) =>
        { object := .neuronGroup index, indices := spikes } := by
    intro network
    rw [List.zipIdx_map, List.map_map]
    rfl
  rw [spikes, spikes, neurons]

theorem emittedSpikes_congr
    (sources : first.spikeSources.map (·.lastSpikes) = second.spikeSources.map (·.lastSpikes)) :
    first.emittedSpikes = second.emittedSpikes := by
  have spikes : ∀ network : Network, network.emittedSpikes =
      (network.spikeSources.map (·.lastSpikes)).zipIdx.map fun (spikes, index) =>
        { object := .spikeSource index, indices := spikes } := by
    intro network
    rw [List.zipIdx_map, List.map_map]
    rfl
  rw [spikes, spikes, sources]

/-- Sources that differ at most in what they emitted last emit the same. -/
theorem spikeSources_emit
    (sources : first.spikeSources.map (·.quiet) = second.spikeSources.map (·.quiet))
    (time : Nat) :
    (first.emit time).spikeSources = (second.emit time).spikeSources := by
  refine map_eq_of_map_eq (fun source _ other _ same => ?_) sources
  have emitted : source.quiet.emit time = other.quiet.emit time := by rw [same]
  exact emitted

theorem lastSpikes_emit_of_core_eq
    (same : first.core = second.core)
    (time : Nat)
    (source : SourceRef) :
    (first.emit time).lastSpikes source = (second.emit time).lastSpikes source := by
  refine lastSpikes_congr ?_ (spikeSources_emit (congrArg Core.spikeSources same) time) source
  exact map_eq_of_map_eq (fun _ _ _ _ same => congrArg NeuronGroup.Core.lastSpikes same)
    (congrArg Core.neuronGroups same)

theorem groupSize_of_core_eq
    (same : first.core = second.core)
    (group : Nat) :
    first.groupSize group = second.groupSize group :=
  groupSize_congr
    (map_eq_of_map_eq (fun _ _ _ _ same => congrArg (·.states.length) same)
      (congrArg Core.neuronGroups same))
    group

/-- Each synapse group delivers the same to the same target. -/
theorem transmissions_of_core_eq
    (within : first.WithinReach)
    (same : first.core = second.core)
    (time : Nat) :
    (first.emit time).transmissions.map (fun (deliveries, group) => (deliveries, group.target)) =
      (second.emit time).transmissions.map
        (fun (deliveries, group) => (deliveries, group.target)) := by
  rw [transmissions, transmissions, List.map_map, List.map_map]
  refine map_eq_of_map_eq (fun group member other _ sameGroup => ?_)
    (congrArg Core.synapseGroups same)
  have wiring := congrArg SynapseGroup.Core.wiring sameGroup
  have source : group.source = other.source := congrArg SynapseGroup.Wiring.source wiring
  have target : group.target = other.target := congrArg SynapseGroup.Wiring.target wiring
  have delivered := SynapseGroup.deliveries_of_core_eq (within group member) sameGroup
    ((first.emit time).lastSpikes group.source) (first.groupSize group.target)
  have sameSpikes := lastSpikes_emit_of_core_eq same time group.source
  have sameSize := groupSize_of_core_eq same group.target
  refine Prod.ext (delivered.trans ?_) target
  rw [sameSpikes, sameSize, source, target]
  rfl

/-- The neuron groups receive the same. -/
theorem received_of_core_eq
    (within : first.WithinReach)
    (same : first.core = second.core)
    (time : Nat) :
    (first.received time).map (·.core) = (second.received time).map (·.core) := by
  apply List.ext_getElem?
  intro target
  rw [List.getElem?_map, List.getElem?_map, received, received, getElem?_receive,
    getElem?_receive, deliveriesTo_congr (transmissions_of_core_eq within same time)]
  generalize deliveriesTo target (second.emit time).transmissions = deliveries
  show (first.neuronGroups[target]?.map _).map _ = (second.neuronGroups[target]?.map _).map _
  rcases getElem?_of_map_eq (congrArg Core.neuronGroups same) target with
    ⟨foundFirst, foundSecond⟩ | ⟨group, other, foundFirst, foundSecond, sameGroup⟩
  · rw [foundFirst, foundSecond]
  · rw [foundFirst, foundSecond]
    exact congrArg some (NeuronGroup.core_addInputs sameGroup deliveries)

/-- The neuron groups are updated in the same way. -/
theorem fired_of_core_eq
    (deterministic : first.rounding ≠ .stochastic)
    (within : first.WithinReach)
    (same : first.core = second.core)
    (time : Nat) :
    (first.fired time).map (·.core) = (second.fired time).map (·.core) := by
  have rounding : first.rounding = second.rounding := congrArg Core.rounding same
  rw [fired, fired, List.map_map, List.map_map, ← rounding]
  exact map_eq_of_map_eq
    (fun _ _ _ _ sameGroup => NeuronGroup.core_update deterministic sameGroup)
    (received_of_core_eq within same time)

theorem lastSpikes_fired_of_core_eq
    (deterministic : first.rounding ≠ .stochastic)
    (within : first.WithinReach)
    (same : first.core = second.core)
    (time : Nat) :
    (first.halfway time).neuronGroups.map (·.lastSpikes) =
      (second.halfway time).neuronGroups.map (·.lastSpikes) :=
  map_eq_of_map_eq (fun _ _ _ _ sameGroup => congrArg NeuronGroup.Core.lastSpikes sameGroup)
    (fired_of_core_eq deterministic within same time)

/-- A step gives the same to synapse groups with the same core, which make the same of it. -/
theorem steppedGroup_of_core_eq
    (deterministic : first.rounding ≠ .stochastic)
    (within : first.WithinReach)
    (same : first.core = second.core)
    (time : Nat)
    {group other : SynapseGroup}
    (member : group ∈ first.synapseGroups)
    (sameGroup : group.core = other.core) :
    (first.steppedGroup time group).1 = (second.steppedGroup time other).1 ∧
      (first.steppedGroup time group).2.core = (second.steppedGroup time other).2.core := by
  have wiring := congrArg SynapseGroup.Core.wiring sameGroup
  have source : group.source = other.source := congrArg SynapseGroup.Wiring.source wiring
  have target : group.target = other.target := congrArg SynapseGroup.Wiring.target wiring
  have rounding : first.rounding = second.rounding := congrArg Core.rounding same
  have stimulus : first.stimulus time group = second.stimulus time other := by
    have targetSpikes := lastSpikes_congr
      (lastSpikes_fired_of_core_eq deterministic within same time)
      (spikeSources_emit (congrArg Core.spikeSources same) time)
      (.neuronGroup other.target)
    rw [Network.stimulus, Network.stimulus, source, target,
      lastSpikes_emit_of_core_eq same, groupSize_of_core_eq same, targetSpikes]
  rw [steppedGroup, steppedGroup, ← stimulus, ← rounding]
  exact SynapseGroup.stepped_of_core_eq deterministic (within group member) sameGroup _

/-- Networks with the same core report the same step. -/
theorem reportOf_of_core_eq
    (deterministic : first.rounding ≠ .stochastic)
    (within : first.WithinReach)
    (same : first.core = second.core)
    (time : Nat) :
    first.reportOf time = second.reportOf time := by
  have emitted : (first.emit time).emittedSpikes = (second.emit time).emittedSpikes := by
    rw [emittedSpikes, emittedSpikes, spikeSources_emit (congrArg Core.spikeSources same)]
  have fired := firedSpikes_congr (lastSpikes_fired_of_core_eq deterministic within same time)
  have transmitted : tally (·.1.length) (first.emit time).transmissions =
      tally (·.1.length) (second.emit time).transmissions := by
    have sums := congrArg (tally (·.1.length)) (transmissions_of_core_eq within same time)
    rwa [tally_map, tally_map] at sums
  have updated : tally (fun group => (first.steppedGroup time group).1) first.synapseGroups =
      tally (fun group => (second.steppedGroup time group).1) second.synapseGroups := by
    have counts := map_eq_of_map_eq
      (fun group member other _ sameGroup =>
        (steppedGroup_of_core_eq deterministic within same time member sameGroup).1)
      (congrArg Core.synapseGroups same)
    have sums := congrArg (tally id) counts
    rwa [tally_map, tally_map] at sums
  rw [reportOf, reportOf, emitted, fired, transmitted, updated]

/-- Networks with the same core have the same core after a step. -/
theorem core_next_of_core_eq
    (deterministic : first.rounding ≠ .stochastic)
    (within : first.WithinReach)
    (same : first.core = second.core)
    (time : Nat) :
    (first.next time).core = (second.next time).core := by
  have neurons : (first.next time).neuronGroups.map (·.core) =
      (second.next time).neuronGroups.map (·.core) :=
    fired_of_core_eq deterministic within same time
  have sources : (first.next time).spikeSources = (second.next time).spikeSources :=
    spikeSources_emit (congrArg Core.spikeSources same) time
  have synapses : (first.next time).synapseGroups.map (·.core) =
      (second.next time).synapseGroups.map (·.core) := by
    rw [next, next, List.map_map, List.map_map]
    exact map_eq_of_map_eq
      (fun group member other _ sameGroup =>
        (steppedGroup_of_core_eq deterministic within same time member sameGroup).2)
      (congrArg Core.synapseGroups same)
  have rounding : (first.next time).rounding = (second.next time).rounding :=
    congrArg Core.rounding same
  rw [core, core, neurons, sources, synapses, rounding]

end Network

end Neurochip
