import Neurochip.Params.Acceptable
import Neurochip.Proofs.Network.Calls
import Neurochip.Proofs.SpikeSource.Playback

namespace Neurochip

/-!
# Configured networks

A description that is accepted makes a network whose parts fit together: every
synapse group finds its source and its target, and its delay line reaches as far
as its delay.  The main statement says that this, and being at rest between
steps, holds wherever calls have led.
-/

/-- What results are mapped to, where each is mapped like the item it belongs to. -/
theorem map_eq_of_forall₂
    {related : α → β → Prop}
    {items : List α}
    {results : List β}
    (all : List.Forall₂ related items results)
    {key : β → γ}
    {itemKey : α → γ}
    (same : ∀ item result, related item result → key result = itemKey item) :
    results.map key = items.map itemKey := by
  induction all with
  | nil => rfl
  | cons here _ inductionHypothesis =>
      rw [List.map_cons, List.map_cons, same _ _ here, inductionHypothesis]

/-- The learning rule of a described synapse group, if there is one that can be parsed. -/
def SynapseGroupParams.rule (params : SynapseGroupParams) : Option LearningRule :=
  match LearningRule.parse? params.synapse.learningRule with
  | .ok rule => rule
  | .error _ => none

namespace Network

/-- Whether a layout has the object that a synapse group refers to. -/
def Layout.HasSource (layout : Layout) : SourceRef → Prop
  | .neuronGroup group => group < layout.neurons.length
  | .spikeSource source => source < layout.sources.length

/-- The neurons of a target exist, and every connection ends at one of them. -/
def Layout.HasTarget (layout : Layout) (wiring : SynapseGroup.Wiring) : Prop :=
  ∃ neurons, layout.neurons[wiring.target]? = some neurons ∧
    ∀ connection ∈ wiring.ends, connection.2 < neurons.2

/-- The parts of a layout are acceptable and fit together. -/
structure Layout.Sound (layout : Layout) : Prop where
  neurons : ∀ group ∈ layout.neurons, group.1.Acceptable
  synapses : ∀ wiring ∈ layout.wirings, wiring.params.Acceptable
  indexed : layout.Indexed
  reach : ∀ wiring ∈ layout.wirings, wiring.reach = wiring.params.delay + 1
  source : ∀ wiring ∈ layout.wirings, layout.HasSource wiring.source
  target : ∀ wiring ∈ layout.wirings, layout.HasTarget wiring
  rule : ∀ wiring ∈ layout.wirings, ∀ rule, wiring.rule = some rule →
    LearningRule.parse rule.source = .ok rule
  threads : 1 ≤ layout.threads

/-- A network is built exactly if each of its parts is, and consists of these parts. -/
theorem ofParams_eq_ok_iff
    {params : NetworkParams}
    {network : Network} :
    ofParams params = .ok network ↔
      ∃ neuronGroups spikeSources synapseGroups,
        List.Forall₂
          (fun (group, index) created =>
            NeuronGroup.create group.size group.neuron (params.neuronGenerator index) =
              .ok created)
          params.neuronGroups.zipIdx neuronGroups ∧
        List.Forall₂ (fun source created => SpikeSource.create source = .ok created)
          params.spikeSources spikeSources ∧
        List.Forall₂
          (fun (group, index) created =>
            SynapseGroup.create group (params.synapseGenerator index) = .ok created)
          params.synapseGroups.zipIdx synapseGroups ∧
        network =
          { neuronGroups := neuronGroups
            spikeSources := spikeSources
            synapseGroups := synapseGroups
            rounding := params.technical.rounding
            threads := params.technical.threads
            nextTime := 0 } := by
  simp only [ofParams, bind_eq_ok_iff, mapM_eq_ok_iff, pure_eq_ok_iff]
  constructor
  · rintro ⟨neuronGroups, neurons, spikeSources, sources, synapseGroups, synapses, same⟩
    exact ⟨neuronGroups, spikeSources, synapseGroups, neurons, sources, synapses, same.symm⟩
  · rintro ⟨neuronGroups, spikeSources, synapseGroups, neurons, sources, synapses, same⟩
    exact ⟨neuronGroups, neurons, spikeSources, sources, synapseGroups, synapses, same.symm⟩

/-- A network is configured exactly if its description is acceptable and it can be built. -/
theorem configure_eq_ok_iff
    {processors : Nat}
    {params : NetworkParams}
    {network : Network} :
    configure processors params = .ok network ↔
      params.checkSourceEvents = .ok () ∧ params.Acceptable processors ∧
        ofParams params = .ok network := by
  rw [configure, check_bind_eq_ok_iff, NetworkParams.check, check_bind_eq_ok_iff,
    Refusal.checkValid_eq_ok_iff, NetworkParams.violations_eq_nil_iff, and_assoc]

/-- The objects of a description at rest, each with the generator of its position. -/
def initial (params : NetworkParams) : Network :=
  { neuronGroups := params.neuronGroups.zipIdx.map fun (group, index) =>
      .atRest group.size group.neuron (params.neuronGenerator index)
    spikeSources := params.spikeSources.map .ofParams
    synapseGroups := params.synapseGroups.zipIdx.map fun (group, index) =>
      .atRest group group.rule (params.synapseGenerator index)
    rounding := params.technical.rounding
    threads := params.technical.threads
    nextTime := 0 }

theorem getElem?_synapseGroups_initial (params : NetworkParams) (index : Nat) :
    (initial params).synapseGroups[index]? =
      params.synapseGroups[index]?.map fun group =>
        .atRest group group.rule (params.synapseGenerator index) := by
  rw [initial, List.getElem?_map, List.getElem?_zipIdx, Option.map_map, Nat.zero_add]
  rfl

variable {processors : Nat} {params : NetworkParams} {network : Network}

/-- A configured network consists of the described objects at rest. -/
theorem eq_initial_of_configure (accepted : configure processors params = .ok network) :
    network = initial params := by
  obtain ⟨_, _, built⟩ := configure_eq_ok_iff.mp accepted
  obtain ⟨neuronGroups, spikeSources, synapseGroups, neurons, sources, synapses, rfl⟩ :=
    ofParams_eq_ok_iff.mp built
  have sameNeurons : neuronGroups.map id = (initial params).neuronGroups := by
    refine map_eq_of_forall₂ neurons fun (group, index) created accepted => ?_
    exact (NeuronGroup.create_eq_ok_iff.mp accepted).2.symm
  have sameSources : spikeSources.map id = (initial params).spikeSources := by
    refine map_eq_of_forall₂ sources fun source created accepted => ?_
    exact (SpikeSource.create_eq_ok_iff.mp accepted).2.2.symm
  have sameSynapses : synapseGroups.map id = (initial params).synapseGroups := by
    refine map_eq_of_forall₂ synapses fun (group, index) created accepted => ?_
    obtain ⟨_, _, rule, parsed, rfl⟩ := SynapseGroup.create_eq_ok_iff.mp accepted
    have described : group.rule = rule := by rw [SynapseGroupParams.rule, parsed]
    simp only [id, described]
  rw [List.map_id] at sameNeurons sameSources sameSynapses
  rw [sameNeurons, sameSources, sameSynapses]
  rfl

/-- Where a description does not ask for draws, the network rounds without them. -/
theorem rounding_ne_stochastic_of_configure
    (accepted : configure processors params = .ok network)
    (deterministic :
      params.technical.rounding = .awayFromZero ∨ params.technical.rounding = .towardZero) :
    network.rounding ≠ .stochastic := by
  rw [eq_initial_of_configure accepted]
  rcases deterministic with away | toward
  · simp [initial, away]
  · simp [initial, toward]

/-- The neuron groups have the described parameters and sizes. -/
theorem frames_ofParams (built : ofParams params = .ok network) :
    network.layout.neurons =
      params.neuronGroups.map fun group => (group.neuron, group.size) := by
  obtain ⟨neuronGroups, _, _, neurons, _, _, rfl⟩ := ofParams_eq_ok_iff.mp built
  have created : neuronGroups.map (·.frame) =
      params.neuronGroups.zipIdx.map fun entry => (entry.1.neuron, entry.1.size) := by
    apply map_eq_of_forall₂ neurons
    intro entry group accepted
    obtain ⟨_, rfl⟩ := NeuronGroup.create_eq_ok_iff.mp accepted
    simp [NeuronGroup.frame, NeuronGroup.atRest, NeuronGroup.size]
  have described := congrArg (List.map fun group : NeuronGroupParams => (group.neuron, group.size))
    (List.zipIdx_map_fst 0 params.neuronGroups)
  rw [List.map_map] at described
  exact created.trans described

theorem length_sources_ofParams (built : ofParams params = .ok network) :
    network.layout.sources.length = params.spikeSources.length := by
  obtain ⟨_, spikeSources, _, _, sources, _, rfl⟩ := ofParams_eq_ok_iff.mp built
  simpa [layout] using sources.length_eq.symm

/-- Each wiring is that of a described synapse group at rest. -/
theorem exists_of_mem_wirings
    (built : ofParams params = .ok network)
    {wiring : SynapseGroup.Wiring}
    (member : wiring ∈ network.layout.wirings) :
    ∃ group ∈ params.synapseGroups, ∃ rule generator,
      LearningRule.parse? group.synapse.learningRule = .ok rule ∧
      wiring = (SynapseGroup.atRest group rule generator).wiring := by
  obtain ⟨_, _, synapseGroups, _, _, synapses, rfl⟩ := ofParams_eq_ok_iff.mp built
  obtain ⟨created, memberCreated, rfl⟩ := List.mem_map.mp member
  obtain ⟨entry, described, accepted⟩ := exists_of_mem_forall₂ synapses memberCreated
  obtain ⟨_, _, rule, parsed, rfl⟩ := SynapseGroup.create_eq_ok_iff.mp accepted
  exact ⟨entry.1, List.fst_mem_of_mem_zipIdx described, rule, _, parsed, rfl⟩

/-- A parsed rule can be parsed again from its own text. -/
theorem parse_source
    {text : String}
    {rule : LearningRule}
    (parsed : LearningRule.parse? text = .ok (some rule)) :
    LearningRule.parse rule.source = .ok rule := by
  unfold LearningRule.parse? at parsed
  split at parsed
  · cases parsed
  · obtain ⟨read, accepted, same⟩ := bind_eq_ok_iff.mp parsed
    obtain rfl := Option.some.inj (pure_eq_ok_iff.mp same)
    have source : read.source = text := by
      unfold LearningRule.parse at accepted
      obtain ⟨_, _, accepted⟩ := bind_eq_ok_iff.mp accepted
      obtain ⟨_, _, accepted⟩ := bind_eq_ok_iff.mp accepted
      rw [← pure_eq_ok_iff.mp accepted]
    rwa [source]

/-- The neuron groups of an acceptable description are created. -/
theorem exists_create_neurons
    (acceptable : params.Acceptable processors)
    {entry : NeuronGroupParams × Nat}
    (member : entry ∈ params.neuronGroups.zipIdx) :
    ∃ created,
      NeuronGroup.create entry.1.size entry.1.neuron (params.neuronGenerator entry.2) =
        .ok created := by
  have neuron := acceptable.neuronGroups entry.1 (List.fst_mem_of_mem_zipIdx member)
  exact ⟨_, NeuronGroup.create_eq_ok_iff.mpr
    ⟨NeuronParams.violations_eq_nil_iff.mpr neuron, rfl⟩⟩

/-- The spike sources of an acceptable description with complete events are created. -/
theorem exists_create_source
    (complete : params.checkSourceEvents = .ok ())
    (acceptable : params.Acceptable processors)
    {source : SpikeSourceParams}
    (member : source ∈ params.spikeSources) :
    ∃ created, SpikeSource.create source = .ok created := by
  obtain ⟨index, place⟩ := List.mem_iff_getElem?.mp member
  have sameLength := forM_eq_ok_iff.mp complete (source, index)
    (List.mk_mem_zipIdx_iff_getElem?.mpr place)
  rw [Refusal.checkLengths_eq_ok_iff] at sameLength
  exact ⟨_, SpikeSource.create_eq_ok_iff.mpr
    ⟨sameLength, acceptable.spikeSources source member, rfl⟩⟩

/-- The synapse groups of an acceptable description are created if their rules can be parsed. -/
theorem exists_create_synapses
    (acceptable : params.Acceptable processors)
    (parsed : ∀ group ∈ params.synapseGroups,
      ∃ rule, LearningRule.parse? group.synapse.learningRule = .ok rule)
    {entry : SynapseGroupParams × Nat}
    (member : entry ∈ params.synapseGroups.zipIdx) :
    ∃ created,
      SynapseGroup.create entry.1 (params.synapseGenerator entry.2) = .ok created := by
  have group := acceptable.synapseGroups entry.1 (List.fst_mem_of_mem_zipIdx member)
  obtain ⟨rule, accepted⟩ := parsed entry.1 (List.fst_mem_of_mem_zipIdx member)
  refine ⟨_, SynapseGroup.create_eq_ok_iff.mpr
    ⟨SynapseParams.violations_eq_nil_iff.mpr group.synapse, ?_, rule, accepted, rfl⟩⟩
  rw [SignMode.violations_eq_nil_iff, SynapseGroupParams.weights, List.forall_mem_map]
  exact group.weights

/-- An acceptable description, with complete events and rules that can be parsed, is configured. -/
theorem exists_configure
    (complete : params.checkSourceEvents = .ok ())
    (acceptable : params.violations processors = [])
    (parsed : ∀ group ∈ params.synapseGroups,
      ∃ rule, LearningRule.parse? group.synapse.learningRule = .ok rule) :
    ∃ network, configure processors params = .ok network := by
  have acceptable := NetworkParams.violations_eq_nil_iff.mp acceptable
  obtain ⟨neuronGroups, neurons⟩ := exists_mapM_eq_ok fun entry member =>
    exists_create_neurons acceptable member
  obtain ⟨spikeSources, sources⟩ := exists_mapM_eq_ok fun source member =>
    exists_create_source complete acceptable member
  obtain ⟨synapseGroups, synapses⟩ := exists_mapM_eq_ok fun entry member =>
    exists_create_synapses acceptable parsed member
  exact ⟨_, configure_eq_ok_iff.mpr ⟨complete, acceptable,
    bind_eq_ok_iff.mpr ⟨neuronGroups, neurons, bind_eq_ok_iff.mpr ⟨spikeSources, sources,
      bind_eq_ok_iff.mpr ⟨synapseGroups, synapses, rfl⟩⟩⟩⟩⟩

/-- All learning rules of a description that is configured can be parsed. -/
theorem exists_rule_of_configure
    (accepted : configure processors params = .ok network)
    {group : SynapseGroupParams}
    (member : group ∈ params.synapseGroups) :
    ∃ rule, LearningRule.parse? group.synapse.learningRule = .ok rule := by
  obtain ⟨_, _, built⟩ := configure_eq_ok_iff.mp accepted
  obtain ⟨_, _, _, _, _, synapses, _⟩ := ofParams_eq_ok_iff.mp built
  obtain ⟨index, place⟩ := List.mem_iff_getElem?.mp member
  have numbered : (group, index) ∈ params.synapseGroups.zipIdx :=
    List.mk_mem_zipIdx_iff_getElem?.mpr place
  obtain ⟨created, _, accepted⟩ := exists_of_mem_forall₂ synapses.flip numbered
  obtain ⟨_, _, rule, parsed, _⟩ := SynapseGroup.create_eq_ok_iff.mp accepted
  exact ⟨rule, parsed⟩

/-- Where a source is described, there is one. -/
theorem hasSource_ofParams
    (built : ofParams params = .ok network)
    {source : SourceRef}
    {size : Nat}
    (found : params.sourceSize? source = some size) :
    network.layout.HasSource source := by
  cases source with
  | neuronGroup group =>
      obtain ⟨_, place, _⟩ := Option.map_eq_some_iff.mp found
      rw [Layout.HasSource, frames_ofParams built, List.length_map]
      exact (List.getElem?_eq_some_iff.mp place).1
  | spikeSource source =>
      obtain ⟨_, place, _⟩ := Option.map_eq_some_iff.mp found
      rw [Layout.HasSource, length_sources_ofParams built]
      exact (List.getElem?_eq_some_iff.mp place).1

/-- The layout of a configured network is sound. -/
theorem sound_of_configure (accepted : configure processors params = .ok network) :
    network.layout.Sound := by
  obtain ⟨_, acceptable, built⟩ := configure_eq_ok_iff.mp accepted
  have frames := frames_ofParams built
  have described := @exists_of_mem_wirings _ _ built
  constructor
  case neurons =>
    intro group member
    rw [frames] at member
    obtain ⟨group, memberParams, rfl⟩ := List.mem_map.mp member
    exact acceptable.neuronGroups group memberParams
  case synapses =>
    intro wiring member
    obtain ⟨group, memberParams, rule, generator, _, rfl⟩ := described member
    exact (acceptable.synapseGroups group memberParams).synapse
  case indexed =>
    intro wiring member
    obtain ⟨group, _, rule, generator, _, rfl⟩ := described member
    exact SynapseGroup.indexed_atRest group rule generator
  case reach =>
    intro wiring member
    obtain ⟨group, _, rule, generator, _, rfl⟩ := described member
    exact DelayLine.length_empty _
  case source =>
    intro wiring member
    obtain ⟨group, memberParams, rule, generator, _, rfl⟩ := described member
    obtain ⟨_, found, _⟩ := (acceptable.synapseGroups group memberParams).source
    exact hasSource_ofParams built found
  case target =>
    intro wiring member
    obtain ⟨group, memberParams, rule, generator, _, rfl⟩ := described member
    obtain ⟨size, found, inside⟩ := (acceptable.synapseGroups group memberParams).target
    obtain ⟨neurons, place, rfl⟩ := Option.map_eq_some_iff.mp found
    refine ⟨(neurons.neuron, neurons.size), ?_, ?_⟩
    · rw [frames, List.getElem?_map]
      exact congrArg _ place
    · intro connection memberEnds
      simp only [SynapseGroup.wiring, SynapseGroup.endsOf, SynapseGroup.atRest,
        List.map_map, List.mem_map] at memberEnds
      obtain ⟨described, memberDescribed, rfl⟩ := memberEnds
      exact inside described memberDescribed
  case rule =>
    intro wiring member parsedRule present
    obtain ⟨group, memberParams, rule, generator, parsed, rfl⟩ := described member
    obtain rfl : rule = some parsedRule := present
    exact parse_source parsed
  case threads =>
    obtain ⟨_, _, _, _, _, _, rfl⟩ := ofParams_eq_ok_iff.mp built
    exact acceptable.technical.1

/-- A configured network is at rest. -/
theorem atRest_of_configure (accepted : configure processors params = .ok network) :
    network.AtRest := by
  obtain ⟨_, _, built⟩ := configure_eq_ok_iff.mp accepted
  obtain ⟨_, _, _, neurons, _, synapses, rfl⟩ := ofParams_eq_ok_iff.mp built
  constructor
  · intro group member
    obtain ⟨entry, _, created⟩ := exists_of_mem_forall₂ neurons member
    obtain ⟨_, rfl⟩ := NeuronGroup.create_eq_ok_iff.mp created
    simp [NeuronGroup.AtRest, NeuronGroup.atRest, NeuronGroup.size]
  · intro group member
    obtain ⟨entry, _, created⟩ := exists_of_mem_forall₂ synapses member
    obtain ⟨_, _, rule, _, rfl⟩ := SynapseGroup.create_eq_ok_iff.mp created
    exact SynapseGroup.settled_atRest entry.1 rule _

/-- Whether calls lead from the configuration of a description to a network. -/
def Reachable (processors : Nat) (params : NetworkParams) (network : Network) : Prop :=
  ∃ start calls,
    configure processors params = .ok start ∧ (start.performAll calls).2 = network

/-- Wherever calls have led, the layout is the one that was configured and the network is at
rest. -/
theorem layout_performAll
    (accepted : configure processors params = .ok network)
    (calls : List Call) :
    (network.performAll calls).2.layout = network.layout ∧
      (network.performAll calls).2.AtRest := by
  refine performAll_induction
    (fun _ after => after.layout = network.layout ∧ after.AtRest)
    ?_ ?_ (fun snapshot _ => ?_) [] ⟨rfl, atRest_of_configure accepted⟩
  · rintro history before time ⟨same, atRest⟩
    exact ⟨(atRest.layout_next time).trans same, atRest.next time⟩
  · rintro history before group mantissas after ⟨same, atRest⟩ set
    exact ⟨(layout_setWeights set).trans same, atRest.setWeights set⟩
  · rintro history before after ⟨same, atRest⟩ restored
    exact ⟨(layout_restore restored).trans same, atRest.restore restored⟩

/-- Wherever calls have led, there are as many groups as are described. -/
theorem length_groups_performAll
    (accepted : configure processors params = .ok network)
    (calls : List Call) :
    (network.performAll calls).2.neuronGroups.length = params.neuronGroups.length ∧
      (network.performAll calls).2.synapseGroups.length = params.synapseGroups.length := by
  have sameLayout := (layout_performAll accepted calls).1
  rw [eq_initial_of_configure accepted] at sameLayout ⊢
  have neurons := congrArg (·.neurons.length) sameLayout
  have synapses := congrArg (·.wirings.length) sameLayout
  simp only [layout, List.length_map] at neurons synapses
  rw [neurons, synapses]
  simp [initial]

/-- Wherever calls have led, the layout is sound. -/
theorem Reachable.sound (reachable : Reachable processors params network) :
    network.layout.Sound := by
  obtain ⟨start, calls, accepted, rfl⟩ := reachable
  rw [(layout_performAll accepted calls).1]
  exact sound_of_configure accepted

/-- Wherever calls have led, the network is at rest. -/
theorem Reachable.atRest (reachable : Reachable processors params network) :
    network.AtRest := by
  obtain ⟨start, calls, accepted, rfl⟩ := reachable
  exact (layout_performAll accepted calls).2

end Network

/-- Synapses from one source to a pair of neurons, which learn from the traces of both sides. -/
def SynapseGroupParams.learning : SynapseGroupParams :=
  { source := .spikeSource 0
    target := 0
    connections :=
      [{ pre := 0, post := 0, weight := 200 }, { pre := 0, post := 1, weight := 20 }]
    synapse :=
      { delay := 1
        learningRule := "x1 - 2*y1"
        traces := ⟨{ impulse := 40, tau := 20 }, {}, { impulse := 40, tau := 20 }, {}, {}⟩ } }

/-- A source whose spike reaches a pair of neurons through synapses that learn; one of the neurons
excites the other. -/
def NetworkParams.pair : NetworkParams :=
  { neuronGroups := [{ size := 2 }]
    spikeSources := [{ size := 1, indices := [0], times := [0] }]
    synapseGroups :=
      [.learning,
        { source := .neuronGroup 0
          target := 0
          connections := [{ pre := 0, post := 1, weight := 50 }] }] }

/-- The rule of the learning synapses, parsed. -/
def SynapseGroupParams.learnedRule : LearningRule :=
  { source := "x1 - 2*y1"
    expr := .binary .sub (.trace .x1) (.binary .mul (.literal 2) (.trace .y1)) }

/-- The rule of the learning synapses can be parsed. -/
theorem SynapseGroupParams.parse_learning :
    LearningRule.parse? learning.synapse.learningRule = .ok (some learnedRule) := by
  decide +kernel

/-- The rules of the pair of neurons can be parsed. -/
theorem NetworkParams.parse_pair :
    ∀ group ∈ pair.synapseGroups,
      ∃ rule, LearningRule.parse? group.synapse.learningRule = .ok rule := by
  intro group member
  simp only [pair, List.mem_cons, List.not_mem_nil, or_false] at member
  rcases member with rfl | rfl
  · exact ⟨_, SynapseGroupParams.parse_learning⟩
  · exact ⟨none, by decide +kernel⟩

/-- The pair of neurons can be configured. -/
theorem Network.exists_configure_pair :
    ∃ network, configure 1 NetworkParams.pair = .ok network :=
  exists_configure rfl (by decide +kernel) NetworkParams.parse_pair

end Neurochip
