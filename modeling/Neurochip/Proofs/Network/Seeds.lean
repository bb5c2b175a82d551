import Neurochip.Proofs.Network.Classification
import Neurochip.Proofs.Network.Resumption

namespace Neurochip

/-!
# The seed is of no importance without draws

The seed of a description reaches a network only through the generators of its
groups.  Where rounding draws nothing, every call leaves the generators where
they are.  The main statement compares two networks whose descriptions differ in
the seed: they answer all calls in the same way, and have the same snapshot after
each of them.
-/

/-- The description with another seed. -/
def NetworkParams.withSeed (params : NetworkParams) (seed : Nat) : NetworkParams :=
  { params with technical := { params.technical with seed := seed } }

/-- What is the same for items with the same key is the same for pairs with the same values. -/
theorem map_zip_eq_of_map_eq
    {key : α → γ}
    {change : α → β → δ}
    (determined : ∀ first second value, key first = key second →
      change first value = change second value)
    {firsts seconds : List α}
    (same : firsts.map key = seconds.map key)
    (values : List β) :
    ((firsts.zip values).map fun (item, value) => change item value) =
      (seconds.zip values).map fun (item, value) => change item value := by
  have samePairs : (firsts.zip values).map (Prod.map key id) =
      (seconds.zip values).map (Prod.map key id) := by
    rw [← List.zip_map_left, ← List.zip_map_left, same]
  refine map_eq_of_map_eq (fun pair _ other _ sameKey => ?_) samePairs
  obtain ⟨item, value⟩ := pair
  obtain ⟨second, _⟩ := other
  obtain ⟨sameItem, rfl⟩ := Prod.mk.inj sameKey
  exact determined item second value sameItem

namespace NeuronGroup

variable {first second : NeuronGroup}

theorem checkStates_of_core_eq
    (same : first.core = second.core)
    (states : List NeuronState) :
    first.checkStates states = second.checkStates states := by
  have sameStates : first.states = second.states := congrArg Core.states same
  simp only [checkStates, size, sameStates]

/-- Groups with the same core have the same core after both have been given the same states. -/
theorem core_withStates
    (same : first.core = second.core)
    (states : List NeuronState) :
    (first.withStates states).core = (second.withStates states).core := by
  have params : first.params = second.params := congrArg Core.params same
  have input : first.input = second.input := congrArg Core.input same
  simp only [core, withStates, params, input]

theorem core_atRest (size : Nat) (params : NeuronParams) (generator other : Generator) :
    (atRest size params generator).core = (atRest size params other).core :=
  rfl

end NeuronGroup

theorem SynapseGroup.checkStates_of_core_eq
    {first second : SynapseGroup}
    (same : first.core = second.core)
    (states : List SynapseState) :
    first.checkStates states = second.checkStates states := by
  obtain ⟨line, generator, rfl, _⟩ := exists_withTransit same
  rfl

theorem SynapseGroup.core_atRest
    (params : SynapseGroupParams)
    (rule : Option LearningRule)
    (generator other : Generator) :
    (atRest params rule generator).core = (atRest params rule other).core :=
  rfl

theorem SynapseGroup.generator_withMantissas (group : SynapseGroup) (mantissas : List Int) :
    (group.withMantissas mantissas).generator = group.generator :=
  rfl

namespace Network

/-- The generators of the neuron groups, and those of the synapse groups. -/
def generators (network : Network) : List Generator × List Generator :=
  (network.neuronGroups.map (·.generator), network.synapseGroups.map (·.generator))

variable {first second network after : Network}

/-- A step without draws leaves all generators where they are. -/
theorem generators_next
    (deterministic : network.rounding ≠ .stochastic)
    (time : Nat) :
    (network.next time).generators = network.generators := by
  have received : (network.received time).map (·.generator) =
      network.neuronGroups.map (·.generator) := by
    apply List.ext_getElem?
    intro position
    rw [Network.received, List.getElem?_map, List.getElem?_map, getElem?_receive, Option.map_map]
    rfl
  have neurons : (network.next time).neuronGroups.map (·.generator) =
      network.neuronGroups.map (·.generator) := by
    rw [← received]
    show ((network.received time).map _).map _ = _
    rw [List.map_map]
    exact List.map_congr_left fun group _ => group.generator_update deterministic
  have synapses : (network.next time).synapseGroups.map (·.generator) =
      network.synapseGroups.map (·.generator) := by
    rw [next, List.map_map]
    exact List.map_congr_left fun group _ => group.generator_stepped deterministic _
  rw [generators, generators, neurons, synapses]

theorem generators_setWeights
    {position : Nat}
    {mantissas : List Int}
    (accepted : network.setWeights position mantissas = some (.ok after)) :
    after.generators = network.generators := by
  obtain ⟨group, changed, found, groupAccepted, rfl⟩ := setWeights_eq_ok_iff.mp accepted
  obtain ⟨_, _, rfl⟩ := SynapseGroup.setWeights_eq_ok_iff.mp groupAccepted
  obtain ⟨inside, rfl⟩ := List.getElem?_eq_some_iff.mp found
  have place : position < (network.synapseGroups.map (·.generator)).length := by
    rwa [List.length_map]
  have own := List.set_getElem_self place
  rw [List.getElem_map] at own
  simp only [generators, List.map_set, SynapseGroup.generator_withMantissas, own]

theorem generators_restore
    {snapshot : Snapshot}
    (restored : network.restore snapshot = .ok after) :
    after.generators = network.generators := by
  obtain ⟨accepts, rfl⟩ := restore_eq_ok_iff_accepts.mp restored
  have takesOver := accepts.takesOver
  rw [generators, generators, takesOver.neuronGenerators, takesOver.synapseGenerators]

/-- Where rounding draws nothing, no call moves a generator. -/
theorem generators_performAll
    (deterministic : network.rounding ≠ .stochastic)
    (calls : List Call) :
    (network.performAll calls).2.generators = network.generators := by
  suffices kept : (network.performAll calls).2.rounding = network.rounding ∧
      (network.performAll calls).2.generators = network.generators from kept.2
  refine performAll_induction
    (fun _ after => after.rounding = network.rounding ∧ after.generators = network.generators)
    ?_ ?_ (fun snapshot _ => ?_) [] ⟨rfl, rfl⟩
  · rintro history before time ⟨rounding, generators⟩
    refine ⟨rounding, (generators_next ?_ time).trans generators⟩
    rw [rounding]
    exact deterministic
  · rintro history before position mantissas after ⟨rounding, generators⟩ set
    refine ⟨?_, (generators_setWeights set).trans generators⟩
    exact (congrArg Layout.rounding (layout_setWeights set)).trans rounding
  · rintro history before after ⟨rounding, generators⟩ restored
    refine ⟨?_, (generators_restore restored).trans generators⟩
    exact (congrArg Layout.rounding (layout_restore restored)).trans rounding

/-- Networks that differ at most in their generators and in where their delay lines are entered, and
that draw nothing. -/
structure Twin (first second : Network) : Prop where
  sane : first.Sane
  deterministic : first.rounding ≠ .stochastic
  core : first.core = second.core
  nextTime : first.nextTime = second.nextTime

namespace Twin

theorem reportOf_eq (twin : first.Twin second) (time : Nat) :
    first.reportOf time = second.reportOf time :=
  reportOf_of_core_eq twin.deterministic twin.sane.sound.withinReach twin.core time

theorem next (twin : first.Twin second) (time : Nat) :
    (first.next time).Twin (second.next time) where
  sane := twin.sane.next time
  deterministic := twin.deterministic
  core := core_next_of_core_eq twin.deterministic twin.sane.sound.withinReach twin.core time
  nextTime := rfl

/-- Twins report the same run, and are twins after it. -/
theorem run (twin : first.Twin second) (steps : Nat) :
    (first.run steps).1 = (second.run steps).1 ∧
      (first.run steps).2.Twin (second.run steps).2 := by
  induction steps generalizing first second with
  | zero => exact ⟨rfl, twin⟩
  | succ steps inductionHypothesis =>
      obtain ⟨reports, after⟩ := inductionHypothesis (twin.next first.nextTime)
      rw [Network.run, Network.run, step_eq, step_eq, ← twin.nextTime]
      exact ⟨congrArg₂ List.cons (twin.reportOf_eq first.nextTime) reports, after⟩

/-- Of twins, both have the synapse group or neither, and with it they set weights alike. -/
theorem setWeights (twin : first.Twin second) (position : Nat) (mantissas : List Int) :
    Option.Rel (Matched Twin)
      (first.setWeights position mantissas) (second.setWeights position mantissas) := by
  rcases getElem?_of_map_eq (congrArg Core.synapseGroups twin.core) position with
    ⟨foundFirst, foundSecond⟩ | ⟨group, other, foundFirst, foundSecond, same⟩
  · rw [Network.setWeights, Network.setWeights, foundFirst, foundSecond]
    exact .none
  · rw [Network.setWeights, Network.setWeights, foundFirst, foundSecond]
    refine .some ((SynapseGroup.matched_setWeights same mantissas).bind ?_)
    intro changed otherChanged accepted _ sameChanged
    have set : first.setWeights position mantissas =
        some (.ok { first with synapseGroups := first.synapseGroups.set position changed }) :=
      setWeights_eq_ok_iff.mpr ⟨group, changed, foundFirst, accepted, rfl⟩
    refine .accepted
      { sane := twin.sane.of_setWeights set
        deterministic := twin.deterministic
        core := ?_
        nextTime := twin.nextTime }
    have core := twin.core
    simp only [Network.core, Core.mk.injEq, List.map_set] at core ⊢
    obtain ⟨neurons, sources, synapses, rounding⟩ := core
    exact ⟨neurons, sources, by rw [synapses, sameChanged], rounding⟩

/-- Twins check a snapshot in the same way. -/
theorem checks_eq (twin : first.Twin second) (snapshot : Snapshot) :
    (first.parts snapshot).forM Part.check = (second.parts snapshot).forM Part.check := by
  have neuronGroups := congrArg Core.neuronGroups twin.core
  have synapseGroups := congrArg Core.synapseGroups twin.core
  have neuronCount : first.neuronGroups.length = second.neuronGroups.length := by
    simpa [Network.core] using congrArg List.length neuronGroups
  have synapseCount : first.synapseGroups.length = second.synapseGroups.length := by
    simpa [Network.core] using congrArg List.length synapseGroups
  have neurons := map_zip_eq_of_map_eq
    (fun _ _ states same => NeuronGroup.checkStates_of_core_eq same states)
    neuronGroups snapshot.neuronGroups
  have synapses := map_zip_eq_of_map_eq
    (fun _ _ states same => SynapseGroup.checkStates_of_core_eq same states)
    synapseGroups snapshot.synapseGroups
  have checks : (first.parts snapshot).map Part.check = (second.parts snapshot).map Part.check := by
    simp only [parts, List.cons_append, List.map_cons, List.map_append, List.map_map,
      neuronCount, synapseCount]
    exact congrArg _ (congrArg _ (congrArg₂ _ neurons synapses))
  have inTurn : ∀ parts : List Part, parts.forM Part.check = (parts.map Part.check).forM id := by
    intro parts
    simp only [List.forM_eq_forM, List.forM_map]
    rfl
  rw [inTurn, inTurn, checks]

/-- Twins restore a snapshot alike. -/
theorem restore (twin : first.Twin second) (snapshot : Snapshot) :
    Matched Twin (first.restore snapshot) (second.restore snapshot) := by
  have neurons := map_zip_eq_of_map_eq
    (fun _ _ states same => NeuronGroup.core_withStates same states)
    (congrArg Core.neuronGroups twin.core) snapshot.neuronGroups
  have synapses := map_zip_eq_of_map_eq
    (fun _ _ states same => SynapseGroup.core_withStates same states)
    (congrArg Core.synapseGroups twin.core) snapshot.synapseGroups
  have sources := congrArg Core.spikeSources twin.core
  have rounding := congrArg Core.rounding twin.core
  rw [restore_eq, restore_eq, ← twin.checks_eq snapshot]
  refine .bind_same fun _ checked => .accepted ?_
  have restored : first.restore snapshot = .ok (first.withSnapshot snapshot) := by
    rw [restore_eq, checked]
    rfl
  refine
    { sane := twin.sane.of_restore restored
      deterministic := twin.deterministic
      core := ?_
      nextTime := twin.nextTime }
  simp only [Network.core, Core.mk.injEq, withSnapshot, List.map_map]
  exact ⟨neurons, sources, synapses, rounding⟩

theorem values_eq (twin : first.Twin second) (object : ObjectId) (quantity : StateVariable) :
    first.values object quantity = second.values object quantity := by
  cases object with
  | neuronGroup index =>
      unfold values
      rcases getElem?_of_map_eq (congrArg Core.neuronGroups twin.core) index with
        ⟨foundFirst, foundSecond⟩ | ⟨group, other, foundFirst, foundSecond, same⟩
      · simp only [foundFirst, foundSecond]
      · have states : group.states = other.states := congrArg NeuronGroup.Core.states same
        simp only [foundFirst, foundSecond, states]
  | spikeSource index =>
      have count := congrArg List.length (congrArg Core.spikeSources twin.core)
      simp only [Network.core, List.length_map] at count
      rw [values, values, count]
  | synapses index =>
      unfold values
      rcases getElem?_of_map_eq (congrArg Core.synapseGroups twin.core) index with
        ⟨foundFirst, foundSecond⟩ | ⟨group, other, foundFirst, foundSecond, same⟩
      · simp only [foundFirst, foundSecond]
      · have synapses : group.synapses = other.synapses :=
          congrArg SynapseGroup.Core.synapses same
        simp only [foundFirst, foundSecond, synapses]

theorem request_eq
    (twin : first.Twin second)
    (object : ObjectId)
    (quantity : StateVariable)
    (selection : Selection) :
    first.request object quantity selection = second.request object quantity selection := by
  rw [request, request, twin.values_eq]

/-- Twins answer a call in the same way, and are twins after it. -/
theorem perform (twin : first.Twin second) (call : Call) :
    first.respond call = second.respond call ∧
      (first.perform call).2.Twin (second.perform call).2 := by
  cases call with
  | step time =>
      rw [respond, respond, Network.perform, Network.perform, step_eq, step_eq, twin.reportOf_eq]
      exact ⟨rfl, twin.next time⟩
  | run steps =>
      obtain ⟨reports, after⟩ := twin.run steps
      exact ⟨congrArg Response.reports reports, after⟩
  | setWeights position mantissas =>
      have sets := twin.setWeights position mantissas
      rw [respond, respond]
      generalize answer : first.setWeights position mantissas = outcome? at sets
      generalize otherAnswer : second.setWeights position mantissas = otherOutcome? at sets
      cases sets with
      | none =>
          rw [perform_setWeights_of_none answer, perform_setWeights_of_none otherAnswer]
          exact ⟨rfl, twin⟩
      | some matched =>
          rw [perform_setWeights first answer, perform_setWeights second otherAnswer]
          exact ⟨congrArg (Response.weightsSet ∘ some) matched.discard_eq, matched.resultOr twin⟩
  | restore snapshot =>
      have restores := twin.restore snapshot
      rw [perform_restore, perform_restore]
      exact ⟨congrArg Response.restored restores.discard_eq, restores.resultOr twin⟩
  | snapshot => exact ⟨congrArg Response.snapshot (snapshot_of_core_eq twin.core), twin⟩
  | request object quantity selection =>
      exact ⟨congrArg Response.values (twin.request_eq object quantity selection), twin⟩

/-- Twins cannot be told apart by calls. -/
theorem answers_eq (twin : first.Twin second) (calls : List Call) :
    first.answers calls = second.answers calls := by
  induction calls generalizing first second with
  | nil => rfl
  | cons call rest inductionHypothesis =>
      obtain ⟨response, after⟩ := twin.perform call
      rw [answers, answers, response, snapshot_of_core_eq after.core, inductionHypothesis after]

end Twin

variable {processors : Nat} {params : NetworkParams} {start other : Network}

/-- The seed is no reason to refuse a description. -/
theorem exists_configure_withSeed
    (accepted : configure processors params = .ok start)
    (seed : Nat) :
    ∃ other, configure processors (params.withSeed seed) = .ok other := by
  obtain ⟨complete, valid, parsable⟩ := exists_configure_iff.mp ⟨start, accepted⟩
  exact exists_configure_iff.mpr ⟨complete, valid, parsable⟩

/-- The seed does not enter the core of a network at rest. -/
theorem core_initial_withSeed (params : NetworkParams) (seed : Nat) :
    (initial (params.withSeed seed)).core = (initial params).core := by
  have neurons : (initial (params.withSeed seed)).neuronGroups.map (·.core) =
      (initial params).neuronGroups.map (·.core) := by
    rw [initial, initial, List.map_map, List.map_map]
    exact List.map_congr_left fun _ _ => NeuronGroup.core_atRest _ _ _ _
  have synapses : (initial (params.withSeed seed)).synapseGroups.map (·.core) =
      (initial params).synapseGroups.map (·.core) := by
    rw [initial, initial, List.map_map, List.map_map]
    exact List.map_congr_left fun _ _ => SynapseGroup.core_atRest _ _ _ _
  rw [core, core, neurons, synapses]
  rfl

/-- Networks whose descriptions differ in the seed are twins, where rounding draws nothing. -/
theorem twin_of_configure
    (accepted : configure processors params = .ok start)
    (deterministic :
      params.technical.rounding = .awayFromZero ∨ params.technical.rounding = .towardZero)
    {seed : Nat}
    (acceptedOther : configure processors (params.withSeed seed) = .ok other) :
    start.Twin other where
  sane := sane_of_configure accepted
  deterministic := rounding_ne_stochastic_of_configure accepted deterministic
  core := by
    rw [eq_initial_of_configure accepted, eq_initial_of_configure acceptedOther,
      core_initial_withSeed]
  nextTime := by
    rw [eq_initial_of_configure accepted, eq_initial_of_configure acceptedOther]
    rfl

/-- Where rounding draws nothing, the seed of a description is irrelevant: with any other seed the
description is accepted as well, both networks give the same answers to all calls and have the
same snapshot after each of them, and neither network ever moves one of its generators. -/
theorem seed_is_irrelevant
    (accepted : configure processors params = .ok start)
    (deterministic :
      params.technical.rounding = .awayFromZero ∨ params.technical.rounding = .towardZero)
    (seed : Nat) :
    ∃ other, configure processors (params.withSeed seed) = .ok other ∧
      ∀ calls,
        start.answers calls = other.answers calls ∧
        (start.performAll calls).2.generators = start.generators ∧
        (other.performAll calls).2.generators = other.generators := by
  obtain ⟨other, acceptedOther⟩ := exists_configure_withSeed accepted seed
  have twin := twin_of_configure accepted deterministic acceptedOther
  have otherDeterministic :=
    rounding_ne_stochastic_of_configure acceptedOther deterministic
  exact ⟨other, acceptedOther, fun calls =>
    ⟨twin.answers_eq calls, generators_performAll twin.deterministic calls,
      generators_performAll otherDeterministic calls⟩⟩

/-- The pair of neurons, which rounds toward zero, answers with seed 7 what it answers with seed 0,
also where weights and a snapshot are refused. -/
theorem seed_is_irrelevant_pair :
    ∃ start other,
      configure 1 { NetworkParams.pair with technical := { rounding := .towardZero } } =
        .ok start ∧
      configure 1
        { NetworkParams.pair with technical := { rounding := .towardZero, seed := 7 } } =
        .ok other ∧
      start.generators ≠ other.generators ∧
      ∀ calls,
        start.answers calls = other.answers calls ∧
        (start.performAll calls).2.generators = start.generators := by
  obtain ⟨start, accepted⟩ := @exists_configure 1
    { NetworkParams.pair with technical := { rounding := .towardZero } } rfl
    (by decide +kernel) NetworkParams.parse_pair
  obtain ⟨other, acceptedOther, same⟩ := seed_is_irrelevant accepted (.inr rfl) 7
  refine ⟨start, other, accepted, acceptedOther, ?_, fun calls =>
    ⟨(same calls).1, (same calls).2.1⟩⟩
  rw [eq_initial_of_configure accepted, eq_initial_of_configure acceptedOther]
  decide +kernel

end Network

end Neurochip
