import Neurochip.Proofs.Network.Classification
import Neurochip.Proofs.Scenario.Chances

namespace Neurochip.Scenario

/-!
# The populated scenario

A description is ready for connections and a stimulus when it is acceptable
without any, has one projection for each synapse group, and the weights of each
projection have the sign of its group.  The main statement says that the
scenario is ready, that the draws of one generator decide about each of its
spikes and connections, and that whatever is drawn into it, the result is a
description of a network.
-/

variable {base populated : NetworkParams} {processors : Nat}

/-- What makes a description one that connections and a stimulus can be drawn into. -/
structure Ready (processors : Nat) (base : NetworkParams) : Prop where
  acceptable : base.Acceptable processors
  parsable : ∀ group ∈ base.synapseGroups, ¬ group.Unparsable
  room : base.HasRoom
  stimulus : ∃ stimulus, base.spikeSources = [stimulus] ∧ Capacity.HasRoom stimulus.size ∧
    stimulus.indices = [] ∧ stimulus.times = []
  unconnected : ∀ group ∈ base.synapseGroups, group.connections = []
  projected : base.synapseGroups.length = projections.length
  weights : ∀ entry ∈ base.synapseGroups.zip projections,
    entry.1.synapse.signMode.range.lower ≤ entry.2.weights.lower ∧
      entry.2.weights.upper ≤ entry.1.synapse.signMode.range.upper

/-- A task is for a synapse group and its projection, and knows the objects they connect. -/
structure Serves (base : NetworkParams) (entry : SynapseGroupParams × Projection) (task : Task) :
    Prop where
  group : task.group = entry.1
  projection : task.projection = entry.2
  sources : base.sourceSize? entry.1.source = some task.sources
  targets : base.targetSize? entry.1.target = some task.targets

/-- A synapse group with connections between its objects, at most one for each pair of neurons, and
with weights of its sign. -/
structure IsConnected (base : NetworkParams) (group drawn : SynapseGroupParams) : Prop where
  source : drawn.source = group.source
  target : drawn.target = group.target
  synapse : drawn.synapse = group.synapse
  pre : ∃ sources, base.sourceSize? group.source = some sources ∧
    ∀ connection ∈ drawn.connections, connection.pre < sources
  post : ∃ targets, base.targetSize? group.target = some targets ∧
    ∀ connection ∈ drawn.connections, connection.post < targets
  weights : ∀ connection ∈ drawn.connections,
    group.synapse.signMode.range.Contains connection.weight
  distinct : (drawn.connections.map ends).Nodup

/-- A description that has got a stimulus and connections, and is the same otherwise. -/
structure Fills (base populated : NetworkParams) : Prop where
  neuronGroups : populated.neuronGroups = base.neuronGroups
  technical : populated.technical = base.technical
  spikeSources : List.Forall₂ IsStimulus base.spikeSources populated.spikeSources
  synapseGroups : List.Forall₂ (IsConnected base) base.synapseGroups populated.synapseGroups

/-- Groups get what is drawn for them one after the other, each from the generator that the groups
before it have left. -/
inductive DrawnInTurn (base : NetworkParams) :
    Generator → List (SynapseGroupParams × Projection) → List SynapseGroupParams → Prop where
  | nil {generator : Generator} : DrawnInTurn base generator [] []
  | cons
      {generator : Generator}
      {entry : SynapseGroupParams × Projection}
      {entries : List (SynapseGroupParams × Projection)}
      {drawn : SynapseGroupParams}
      {others : List SynapseGroupParams}
      {sources targets : Nat}
      (sourceSize : base.sourceSize? entry.1.source = some sources)
      (targetSize : base.targetSize? entry.1.target = some targets)
      (connections : ConnectionsDrawn entry.2 sources targets generator drawn.connections)
      (rest : DrawnInTurn base (afterConnections entry.2 sources targets generator) entries
        others) :
      DrawnInTurn base generator (entry :: entries) (drawn :: others)

/-- Everything in a description is drawn from one generator: first the stimulus, then the connections
of one group after the other. -/
structure DrawnFrom (generator : Generator) (base populated : NetworkParams) : Prop where
  stimulus : ∃ source drawn, base.spikeSources = [source] ∧ populated.spikeSources = [drawn] ∧
    SpikesDrawn source drawn generator
  connections : ∀ source ∈ base.spikeSources,
    DrawnInTurn base ((afterSpikes source.size)^[source.period] generator)
      (base.synapseGroups.zip projections) populated.synapseGroups

/-- If every item has a related answer, so has the whole list. -/
theorem exists_mapM_eq_some
    {answer? : α → Option β}
    {related : α → β → Prop}
    {items : List α}
    (each : ∀ item ∈ items, ∃ result, answer? item = some result ∧ related item result) :
    ∃ results, items.mapM answer? = some results ∧ List.Forall₂ related items results := by
  induction items with
  | nil => exact ⟨[], rfl, .nil⟩
  | cons item rest inductionHypothesis =>
      obtain ⟨result, answered, here⟩ := each item List.mem_cons_self
      obtain ⟨results, others, all⟩ := inductionHypothesis fun other member =>
        each other (List.mem_cons_of_mem _ member)
      refine ⟨result :: results, ?_, .cons here all⟩
      rw [List.mapM_cons, answered, others]
      rfl

/-- The sizes of the objects that a task knows are those in the description. -/
theorem connectedSizes?_eq_some
    {stimulus : SpikeSourceParams}
    (only : base.spikeSources = [stimulus])
    {group : SynapseGroupParams}
    {sources targets : Nat}
    (sourceSize : base.sourceSize? group.source = some sources)
    (targetSize : base.targetSize? group.target = some targets) :
    connectedSizes? base stimulus group = some (sources, targets) := by
  unfold connectedSizes?
  rw [targetSize]
  cases reference : group.source with
  | neuronGroup source =>
      rw [reference] at sourceSize
      have known : base.targetSize? source = some sources := sourceSize
      simp [known]
  | spikeSource source =>
      rw [reference, NetworkParams.sourceSize?, only] at sourceSize
      cases source with
      | zero =>
          obtain rfl : stimulus.size = sources := Option.some.inj sourceSize
          rfl
      | succ source => simp at sourceSize

/-- A description that is ready has a task for each of its synapse groups. -/
theorem Ready.exists_tasks
    (ready : Ready processors base)
    {stimulus : SpikeSourceParams}
    (only : base.spikeSources = [stimulus]) :
    ∃ tasks, tasks? base stimulus = some tasks ∧
      List.Forall₂ (Serves base) (base.synapseGroups.zip projections) tasks := by
  refine exists_mapM_eq_some fun entry member => ?_
  obtain ⟨group, projection⟩ := entry
  have acceptable := ready.acceptable.synapseGroups group (List.of_mem_zip member).1
  obtain ⟨sources, sourceSize, _⟩ := acceptable.source
  obtain ⟨targets, targetSize, _⟩ := acceptable.target
  exact ⟨{ group := group, projection := projection, sources := sources, targets := targets },
    by simp [connectedSizes?_eq_some only sourceSize targetSize], rfl, rfl, sourceSize, targetSize⟩

theorem Task.run_draw (task : Task) (generator : Generator) :
    task.draw.run generator =
      ({ task.group with
          connections := task.group.connections ++
            ((drawConnections task.projection task.sources task.targets).run generator).1 },
        afterConnections task.projection task.sources task.targets generator) := by
  rw [Task.draw, Draw.run_bind, Draw.run_pure, run_drawConnections_snd]

/-- A task connects its synapse group. -/
theorem Serves.isConnected_run_draw
    {entry : SynapseGroupParams × Projection}
    {task : Task}
    (serves : Serves base entry task)
    (unconnected : entry.1.connections = [])
    (weights : entry.1.synapse.signMode.range.lower ≤ entry.2.weights.lower ∧
      entry.2.weights.upper ≤ entry.1.synapse.signMode.range.upper)
    (generator : Generator) :
    IsConnected base entry.1 (task.draw.run generator).1 := by
  obtain ⟨group, projection⟩ := entry
  obtain ⟨rfl, rfl, sources, targets⟩ := serves
  have connects := connects_run_drawConnections task.projection task.sources task.targets generator
  rw [task.run_draw, unconnected, List.nil_append]
  exact
    { source := rfl
      target := rfl
      synapse := rfl
      pre := ⟨task.sources, sources, connects.pre⟩
      post := ⟨task.targets, targets, connects.post⟩
      weights := fun connection member =>
        have inside := connects.weight connection member
        ⟨weights.1.trans inside.1, inside.2.trans weights.2⟩
      distinct := connects.distinct }

/-- The tasks connect all synapse groups, one after the other. -/
theorem forall₂_run_tasks
    {entries : List (SynapseGroupParams × Projection)}
    {tasks : List Task}
    (serve : List.Forall₂ (Serves base) entries tasks)
    (unconnected : ∀ entry ∈ entries, entry.1.connections = [])
    (weights : ∀ entry ∈ entries,
      entry.1.synapse.signMode.range.lower ≤ entry.2.weights.lower ∧
        entry.2.weights.upper ≤ entry.1.synapse.signMode.range.upper)
    (generator : Generator) :
    List.Forall₂ (fun entry drawn => IsConnected base entry.1 drawn) entries
      ((tasks.mapM Task.draw).run generator).1 := by
  induction serve generalizing generator with
  | nil => exact .nil
  | cons here _ inductionHypothesis =>
      rw [Draw.run_mapM_cons]
      exact .cons
        (here.isConnected_run_draw (unconnected _ List.mem_cons_self)
          (weights _ List.mem_cons_self) generator)
        (inductionHypothesis (fun entry member => unconnected entry (.tail _ member))
          (fun entry member => weights entry (.tail _ member)) _)

/-- The tasks draw one after the other. -/
theorem drawnInTurn_run_tasks
    {entries : List (SynapseGroupParams × Projection)}
    {tasks : List Task}
    (serve : List.Forall₂ (Serves base) entries tasks)
    (unconnected : ∀ entry ∈ entries, entry.1.connections = [])
    (generator : Generator) :
    DrawnInTurn base generator entries ((tasks.mapM Task.draw).run generator).1 := by
  induction serve generalizing generator with
  | nil => exact .nil
  | @cons entry task _ _ here _ inductionHypothesis =>
      rw [Draw.run_mapM_cons, task.run_draw, here.group, unconnected entry List.mem_cons_self,
        here.projection]
      exact .cons here.sources here.targets
        (connectionsDrawn_run_drawConnections entry.2 task.sources task.targets generator)
        (inductionHypothesis (fun entry member => unconnected entry (.tail _ member)) _)

/-- A description that is ready gets a stimulus, and then its tasks draw. -/
theorem Ready.exists_populate (ready : Ready processors base) :
    ∃ stimulus tasks draw, base.spikeSources = [stimulus] ∧
      stimulus.indices = [] ∧ stimulus.times = [] ∧
      List.Forall₂ (Serves base) (base.synapseGroups.zip projections) tasks ∧
      populate? base = some draw ∧
      ∀ generator, (draw.run generator).1 = { base with
        spikeSources := [((drawStimulus stimulus).run generator).1]
        synapseGroups :=
          ((tasks.mapM Task.draw).run ((drawStimulus stimulus).run generator).2).1 } := by
  obtain ⟨stimulus, only, room, noIndices, noTimes⟩ := ready.stimulus
  obtain ⟨tasks, given, serve⟩ := ready.exists_tasks only
  have noRest : base.synapseGroups.drop tasks.length = [] := by
    rw [List.drop_eq_nil_iff, ← serve.length_eq, List.length_zip, ready.projected]
    simp
  unfold populate?
  rw [only]
  dsimp only
  rw [if_pos room, given]
  refine ⟨stimulus, tasks, _, rfl, noIndices, noTimes, serve, rfl, fun generator => ?_⟩
  rw [Draw.run_bind, Draw.run_bind, Draw.run_pure, noRest, List.append_nil]

/-- Whatever is drawn into a description that is ready, fills it, and is decided by the generator. -/
theorem Ready.fills (ready : Ready processors base) :
    ∃ draw, populate? base = some draw ∧
      ∀ generator, Fills base (draw.run generator).1 ∧
        DrawnFrom generator base (draw.run generator).1 := by
  obtain ⟨stimulus, tasks, draw, only, noIndices, noTimes, serve, given, populated⟩ :=
    ready.exists_populate
  have groups : (base.synapseGroups.zip projections).map Prod.fst = base.synapseGroups :=
    List.map_fst_zip (Nat.le_of_eq ready.projected)
  have unconnected : ∀ entry ∈ base.synapseGroups.zip projections, entry.1.connections = [] :=
    fun entry member => ready.unconnected entry.1 (List.of_mem_zip member).1
  refine ⟨draw, given, fun generator => ?_⟩
  rw [populated]
  constructor
  · have connected := forall₂_run_tasks serve unconnected ready.weights
      ((drawStimulus stimulus).run generator).2
    rw [← List.forall₂_map_left_iff (f := Prod.fst), groups] at connected
    exact
      { neuronGroups := rfl
        technical := rfl
        spikeSources := by
          rw [only]
          exact .cons (isStimulus_run_drawStimulus noIndices noTimes generator) .nil
        synapseGroups := connected }
  · refine
      { stimulus := ⟨stimulus, _, only, rfl,
          spikesDrawn_run_drawStimulus noIndices noTimes generator⟩
        connections := fun source member => ?_ }
    rw [only, List.mem_singleton] at member
    subst member
    rw [← run_drawStimulus_snd]
    exact drawnInTurn_run_tasks serve unconnected _

/-- The objects have the sizes they had before. -/
theorem Fills.sourceSize?_eq (fills : Fills base populated) (source : SourceRef) :
    populated.sourceSize? source = base.sourceSize? source := by
  have sizes := map_eq_of_forall₂ fills.spikeSources fun _ _ stimulus => stimulus.size
  cases source with
  | neuronGroup group => rw [NetworkParams.sourceSize?, fills.neuronGroups]; rfl
  | spikeSource source =>
      rw [NetworkParams.sourceSize?, ← List.getElem?_map, sizes, List.getElem?_map]
      rfl

theorem IsStimulus.acceptable
    {source drawn : SpikeSourceParams}
    (stimulus : IsStimulus source drawn) :
    drawn.Acceptable where
  indices := stimulus.size ▸ stimulus.indices
  times := fun _ => stimulus.period ▸ stimulus.times
  events := SpikeSourceParams.distinct_events stimulus.events

theorem IsConnected.acceptable
    {group drawn : SynapseGroupParams}
    (connected : IsConnected base group drawn)
    (fills : Fills base populated)
    (synapse : group.synapse.Acceptable) :
    drawn.Acceptable populated where
  source := by
    rw [fills.sourceSize?_eq, connected.source]
    exact connected.pre
  target := by
    rw [NetworkParams.targetSize?, fills.neuronGroups, connected.target]
    exact connected.post
  weights := by
    rw [connected.synapse]
    exact connected.weights
  synapse := connected.synapse ▸ synapse

theorem Fills.acceptable
    (fills : Fills base populated)
    (before : base.Acceptable processors) :
    populated.Acceptable processors where
  neuronGroups := fills.neuronGroups ▸ before.neuronGroups
  spikeSources := by
    intro drawn member
    obtain ⟨source, _, stimulus⟩ := exists_of_mem_forall₂ fills.spikeSources member
    exact stimulus.acceptable
  synapseGroups := by
    intro drawn member
    obtain ⟨group, found, connected⟩ := exists_of_mem_forall₂ fills.synapseGroups member
    exact connected.acceptable fills (before.synapseGroups group found).synapse
  technical := fills.technical ▸ before.technical

/-- A description that was ready makes a network once it is filled. -/
theorem Ready.exists_configure
    (ready : Ready processors base)
    (fills : Fills base populated) :
    ∃ network, Network.configure processors populated = .ok network ∧
      Network.configure? processors populated = .ok (some network) := by
  have complete : populated.EventsComplete := by
    intro drawn member
    obtain ⟨source, _, stimulus⟩ := exists_of_mem_forall₂ fills.spikeSources member
    exact stimulus.complete
  have parsable : ∀ group ∈ populated.synapseGroups, ¬ group.Unparsable := by
    intro drawn member
    obtain ⟨group, found, connected⟩ := exists_of_mem_forall₂ fills.synapseGroups member
    unfold SynapseGroupParams.Unparsable SynapseGroupParams.HasRuleError
    rw [connected.synapse]
    exact ready.parsable group found
  have room : populated.HasRoom := by
    unfold NetworkParams.HasRoom
    rw [fills.neuronGroups]
    exact ready.room
  have valid := NetworkParams.violations_eq_nil_iff.mpr (fills.acceptable ready.acceptable)
  obtain ⟨network, accepted⟩ := Network.exists_configure_iff.mpr ⟨complete, valid, parsable⟩
  exact ⟨network, accepted, by rw [Network.configure?_of_hasRoom room, accepted]; rfl⟩

/-- The scenario is ready on any machine. -/
theorem ready_params (positive : 0 < processors) : Ready processors params where
  acceptable :=
    have onOne : params.Acceptable 1 := NetworkParams.violations_eq_nil_iff.mp (by decide +kernel)
    { onOne with technical := ⟨Nat.le_refl 1, positive⟩ }
  parsable := by
    intro group member
    have parsed : ∀ group ∈ params.synapseGroups,
        (LearningRule.parse? group.synapse.learningRule).toBool = true := by decide +kernel
    rw [← SynapseGroupParams.exists_rule_iff]
    cases outcome : LearningRule.parse? group.synapse.learningRule with
    | error error => simpa [outcome, Except.toBool] using parsed group member
    | ok rule => exact ⟨rule, rfl⟩
  room := by decide +kernel
  stimulus := ⟨_, rfl, by decide, rfl, rfl⟩
  unconnected := by decide
  projected := rfl
  weights := by decide

/-- Weights of a single value are this value. -/
theorem run_within_eq_lower
    {weights : Bounds}
    (single : weights.lower = weights.upper)
    (generator : Generator) :
    ((Draw.within weights).run generator).1 = weights.lower := by
  have contained := Draw.contains_run_within weights generator
  exact Int.le_antisymm (single ▸ contained.2) contained.1

/-- Every neuron of the stimulus reaches its own neuron with the same weight. -/
theorem DrawnFrom.stimulus_connections
    {generator : Generator}
    (drawn : DrawnFrom generator params populated) :
    ∃ first others, populated.synapseGroups = first :: others ∧
      first.connections =
        (List.range 800).map fun neuron => { pre := neuron, post := neuron, weight := 200 } := by
  have groups := drawn.connections _ List.mem_cons_self
  generalize populated.synapseGroups = connected, (afterSpikes _)^[_] generator = after at groups
  cases groups with
  | @cons _ _ _ first others sources targets sourceSize targetSize twins rest =>
      obtain rfl : 800 = sources := Option.some.inj sourceSize
      obtain rfl : 800 = targets := Option.some.inj targetSize
      refine ⟨first, others, rfl, Eq.trans (show TwinsConnected _ _ _ _ _ from twins) ?_⟩
      exact List.map_congr_left fun neuron _ =>
        congrArg (Connection.mk neuron neuron) (run_within_eq_lower rfl _)

/-- Whatever is drawn into the scenario, the result is a description of a network on one thread, with
distinct events of the stimulus and at most one synapse for each pair of neurons in a group. In each
step the stimulus spikes for a sample of neurons, as many as a Poisson count says; each of its
neurons reaches its own neuron with weight 200, and any other two neurons of connected objects are
connected exactly if their coin falls. -/
theorem populated_params_make_a_network (positive : 0 < processors) :
    params.technical.threads = 1 ∧
      ∃ draw, populate? params = some draw ∧
        ∀ generator, Fills params (draw.run generator).1 ∧
          DrawnFrom generator params (draw.run generator).1 ∧
          (∃ first others, (draw.run generator).1.synapseGroups = first :: others ∧
            first.connections =
              (List.range 800).map fun neuron => ⟨neuron, neuron, 200⟩) ∧
          ∃ network, Network.configure processors (draw.run generator).1 = .ok network ∧
            Network.configure? processors (draw.run generator).1 = .ok (some network) := by
  have ready := ready_params positive
  obtain ⟨draw, given, fills⟩ := ready.fills
  refine ⟨rfl, draw, given, fun generator => ?_⟩
  obtain ⟨filled, drawn⟩ := fills generator
  exact ⟨filled, drawn, drawn.stimulus_connections, ready.exists_configure filled⟩

/-- The network that is drawn from the seed seven, on a machine with a single processor. -/
theorem populated_params_make_a_network_from_seed_seven :
    0 < 1 ∧
      ∃ draw, populate? params = some draw ∧
        Fills params (draw.run (.ofSeed 7)).1 ∧
          DrawnFrom (.ofSeed 7) params (draw.run (.ofSeed 7)).1 ∧
          ∃ network, Network.configure 1 (draw.run (.ofSeed 7)).1 = .ok network := by
  have positive : 0 < 1 := by decide
  obtain ⟨oneThread, draw, given, makes⟩ := populated_params_make_a_network positive
  obtain ⟨fills, drawn, _, network, accepted, built⟩ := makes (.ofSeed 7)
  exact ⟨positive, draw, given, fills, drawn, network, accepted⟩

end Neurochip.Scenario
