import Neurochip.Proofs.Scenario.Drawn

namespace Neurochip.Scenario

/-!
# What decides about each spike and each connection

All draws are made from one generator, one after the other: the spikes of a step
after those of the steps before, the coin of a pair of neurons after those of
the pairs before.  A draw moves the generator in a way that does not depend on
the step or the pair, so the generator that decides is the first one, moved once
for each step or pair before.  The statements say in these terms exactly which
spikes and which connections are drawn.
-/

/-- The generator behind the spikes of a step. -/
def afterSpikes (size : Nat) (generator : Generator) : Generator :=
  let counted := (Draw.poisson silence).run generator
  ((Draw.sample size counted.1).run counted.2).2

/-- The generator behind a weight. -/
def afterWeight (weights : Bounds) (generator : Generator) : Generator :=
  ((Draw.within weights).run generator).2

/-- The generator behind the coin of a pair, and behind its weight if the coin falls. -/
def afterCoin (threshold : UInt64) (weights : Bounds) (generator : Generator) : Generator :=
  let tossed := (Draw.chance threshold).run generator
  if tossed.1 then afterWeight weights tossed.2 else tossed.2

/-- Each step has as many spikes as a Poisson count says, or spikes of all neurons if it says more:
those of the neurons in a sample. -/
def SpikesDrawn (source drawn : SpikeSourceParams) (generator : Generator) : Prop :=
  ∀ time < source.period,
    let counted := (Draw.poisson silence).run ((afterSpikes source.size)^[time] generator)
    let indices := ((Draw.sample source.size counted.1).run counted.2).1
    Draw.IsSample source.size (min counted.1 source.size) indices ∧
      ∀ index, (time, index) ∈ drawn.times.zip drawn.indices ↔ index ∈ indices

/-- Each neuron of both objects is connected to the one with its index, by the weight that is drawn
for it. -/
def TwinsConnected
    (weights : Bounds)
    (sources targets : Nat)
    (generator : Generator)
    (connections : List Connection) :
    Prop :=
  connections = (List.range (min sources targets)).map fun neuron =>
    { pre := neuron
      post := neuron
      weight := ((Draw.within weights).run ((afterWeight weights)^[neuron] generator)).1 }

/-- Each pair of neurons is connected exactly if its coin falls, by the weight that is drawn then. -/
def PairsConnected
    (threshold : UInt64)
    (weights : Bounds)
    (sources targets : Nat)
    (generator : Generator)
    (connections : List Connection) :
    Prop :=
  ∀ pre < sources, ∀ post < targets, ∀ weight,
    let tossed := (Draw.chance threshold).run
      ((afterCoin threshold weights)^[pre * targets + post] generator)
    { pre := pre, post := post, weight := weight } ∈ connections ↔
      tossed.1 = true ∧ weight = ((Draw.within weights).run tossed.2).1

/-- What a projection draws, pair by pair. -/
def ConnectionsDrawn
    (projection : Projection)
    (sources targets : Nat)
    (generator : Generator)
    (connections : List Connection) :
    Prop :=
  match projection.wiring with
  | .oneToOne => TwinsConnected projection.weights sources targets generator connections
  | .random threshold =>
      PairsConnected threshold projection.weights sources targets generator connections

/-- The generator behind all connections of a projection. -/
def afterConnections (projection : Projection) (sources targets : Nat) (generator : Generator) :
    Generator :=
  match projection.wiring with
  | .oneToOne => (afterWeight projection.weights)^[min sources targets] generator
  | .random threshold =>
      (afterCoin threshold projection.weights)^[sources * targets] generator

theorem run_drawSpikes (size time : Nat) (generator : Generator) :
    (drawSpikes size time).run generator =
      let counted := (Draw.poisson silence).run generator
      (((Draw.sample size counted.1).run counted.2).1.map fun index =>
          { time := time, index := index },
        afterSpikes size generator) := by
  rw [drawSpikes, Draw.run_bind, Draw.run_bind, Draw.run_pure]
  rfl

theorem run_drawSpikes_snd (size time : Nat) (generator : Generator) :
    ((drawSpikes size time).run generator).2 = afterSpikes size generator :=
  congrArg Prod.snd (run_drawSpikes size time generator)

theorem run_drawStimulus_snd (source : SpikeSourceParams) (generator : Generator) :
    ((drawStimulus source).run generator).2 =
      (afterSpikes source.size)^[source.period] generator := by
  have moved := Draw.run_mapM_snd (run_drawSpikes_snd source.size) (List.range source.period)
    generator
  rw [List.length_range] at moved
  rw [← moved, drawStimulus, Draw.run_bind, Draw.run_pure]

/-- Events that are listed by their times and indices are the events. -/
theorem mem_zip_events_iff {events : List SpikeEvent} {time index : Nat} :
    (time, index) ∈ (events.map (·.time)).zip (events.map (·.index)) ↔
      { time := time, index := index } ∈ events := by
  rw [List.zip_map', List.mem_map]
  constructor
  · rintro ⟨event, member, same⟩
    obtain ⟨rfl, rfl⟩ := Prod.mk.inj same
    exact member
  · exact fun member => ⟨_, member, rfl⟩

/-- The spikes of a source without events are drawn step by step. -/
theorem spikesDrawn_run_drawStimulus
    {source : SpikeSourceParams}
    (noIndices : source.indices = [])
    (noTimes : source.times = [])
    (generator : Generator) :
    SpikesDrawn source ((drawStimulus source).run generator).1 generator := by
  intro time inPeriod
  refine ⟨Draw.isSample_run_sample _ _ _, fun index => ?_⟩
  have steps := @Draw.mem_flatten_run_mapM_range_iff _ _ SpikeEvent.time _
    (run_drawSpikes_snd source.size) (fun _ _ _ member => (of_mem_run_drawSpikes member).1)
    source.period { time := time, index := index } inPeriod generator
  rw [drawStimulus, Draw.run_bind, Draw.run_pure]
  dsimp only
  rw [noIndices, noTimes, List.nil_append, List.nil_append, mem_zip_events_iff, steps,
    run_drawSpikes]
  simp

variable {threshold : UInt64} {weights : Bounds}

theorem afterCoin_of_falls
    {generator : Generator}
    (falls : ((Draw.chance threshold).run generator).1 = true) :
    afterCoin threshold weights generator =
      afterWeight weights ((Draw.chance threshold).run generator).2 :=
  if_pos falls

theorem afterCoin_of_stands
    {generator : Generator}
    (stands : ¬ ((Draw.chance threshold).run generator).1 = true) :
    afterCoin threshold weights generator = ((Draw.chance threshold).run generator).2 :=
  if_neg stands

theorem run_drawRow_snd
    (threshold : UInt64)
    (weights : Bounds)
    (posts : List Nat)
    (pre : Nat)
    (generator : Generator) :
    ((drawRow threshold weights pre posts).run generator).2 =
      (afterCoin threshold weights)^[posts.length] generator := by
  induction posts generalizing generator with
  | nil => rfl
  | cons post rest inductionHypothesis =>
      rw [drawRow, Draw.run_bind, List.length_cons, Function.iterate_succ_apply]
      split
      · rw [afterCoin_of_falls ‹_›]
        exact inductionHypothesis _
      · rw [afterCoin_of_stands ‹_›]
        exact inductionHypothesis _

/-- A row does not reach the neurons in front of it. -/
theorem notMem_run_drawRow
    {pre post first : Nat}
    (inFront : post < first)
    (count : Nat)
    (weight : Int)
    (generator : Generator) :
    { pre := pre, post := post, weight := weight } ∉
      ((drawRow threshold weights pre (List.range' first count)).run generator).1 := by
  intro member
  have posts := sublist_run_drawRow threshold weights pre (List.range' first count) generator
  have behind : post ∈ List.range' first count := posts.subset (List.mem_map_of_mem member)
  exact Nat.not_le_of_lt inFront (List.mem_range'_1.mp behind).1

/-- A row connects its neuron to exactly those whose coins fall. -/
theorem mem_run_drawRow_iff
    {pre post first count : Nat}
    (atLeast : first ≤ post)
    (below : post < first + count)
    (weight : Int)
    (generator : Generator) :
    let tossed := (Draw.chance threshold).run
      ((afterCoin threshold weights)^[post - first] generator)
    { pre := pre, post := post, weight := weight } ∈
        ((drawRow threshold weights pre (List.range' first count)).run generator).1 ↔
      tossed.1 = true ∧ weight = ((Draw.within weights).run tossed.2).1 := by
  dsimp only
  induction count generalizing first generator with
  | zero => omega
  | succ count inductionHypothesis =>
      rw [List.range'_succ, drawRow, Draw.run_bind]
      rcases Nat.eq_or_lt_of_le atLeast with rfl | later
      · -- The others of the row are behind this one.
        have absent := @notMem_run_drawRow threshold weights pre first _ (Nat.lt_succ_self first)
          count weight
        rw [Nat.sub_self, Function.iterate_zero_apply]
        split
        · rw [Draw.run_bind, Draw.run_bind, Draw.run_pure]
          simp [*]
        · simp [*]
      · have behind := fun after => @inductionHypothesis (first + 1) later (by omega) after
        have apart : post ≠ first := by omega
        rw [show post - first = post - (first + 1) + 1 by omega, Function.iterate_succ_apply]
        split
        · rw [afterCoin_of_falls ‹_›, ← behind, Draw.run_bind, Draw.run_bind, Draw.run_pure]
          simp [apart, afterWeight]
        · rw [afterCoin_of_stands ‹_›, ← behind]

/-- Rows connect exactly the pairs whose coins fall. -/
theorem pairsConnected_run_rows
    (threshold : UInt64)
    (weights : Bounds)
    (sources targets : Nat)
    (generator : Generator) :
    PairsConnected threshold weights sources targets generator
      (((List.range sources).mapM fun pre =>
        drawRow threshold weights pre (List.range targets)).run generator).1.flatten := by
  intro pre preSmall post postSmall weight
  have rows := @Draw.mem_flatten_run_mapM_range_iff _
    (fun pre => drawRow threshold weights pre (List.range targets)) Connection.pre _
    (run_drawRow_snd threshold weights (List.range targets))
    (fun _ _ _ member => (of_mem_run_drawRow member).1)
    sources { pre := pre, post := post, weight := weight } preSmall generator
  have row := @mem_run_drawRow_iff threshold weights pre post 0 targets (Nat.zero_le post)
    (by omega) weight ((afterCoin threshold weights)^[targets * pre] generator)
  rw [List.length_range, ← Function.iterate_mul] at rows
  rw [Nat.sub_zero, ← Function.iterate_add_apply, ← List.range_eq_range',
    show post + targets * pre = pre * targets + post by rw [Nat.add_comm, Nat.mul_comm]] at row
  exact rows.trans row

theorem run_drawPair_snd (weights : Bounds) (neuron : Nat) (generator : Generator) :
    ((drawPair weights neuron).run generator).2 = afterWeight weights generator := by
  rw [drawPair, Draw.run_bind, Draw.run_pure]
  rfl

/-- Pairs of neurons with the same index are connected one after the other. -/
theorem twinsConnected_run_pairs
    (weights : Bounds)
    (sources targets : Nat)
    (generator : Generator) :
    TwinsConnected weights sources targets generator
      (((List.range (min sources targets)).mapM (drawPair weights)).run generator).1 := by
  apply List.ext_getElem?
  intro neuron
  rcases Nat.lt_or_ge neuron (min sources targets) with small | large
  · rw [Draw.getElem?_run_mapM_range (run_drawPair_snd weights) small, List.getElem?_map,
      List.getElem?_range small, drawPair, Draw.run_bind, Draw.run_pure]
    rfl
  · rw [List.getElem?_eq_none (by simpa using large), List.getElem?_eq_none (by simpa using large)]

/-- What is drawn for a projection is what its coins and weights decide. -/
theorem connectionsDrawn_run_drawConnections
    (projection : Projection)
    (sources targets : Nat)
    (generator : Generator) :
    ConnectionsDrawn projection sources targets generator
      ((drawConnections projection sources targets).run generator).1 := by
  obtain ⟨_ | threshold, weights⟩ := projection
  · exact twinsConnected_run_pairs weights sources targets generator
  · exact pairsConnected_run_rows threshold weights sources targets generator

theorem run_drawConnections_snd
    (projection : Projection)
    (sources targets : Nat)
    (generator : Generator) :
    ((drawConnections projection sources targets).run generator).2 =
      afterConnections projection sources targets generator := by
  obtain ⟨_ | threshold, weights⟩ := projection
  · have moved := Draw.run_mapM_snd (run_drawPair_snd weights) (List.range (min sources targets))
      generator
    rwa [List.length_range] at moved
  · have moved := Draw.run_mapM_snd (run_drawRow_snd threshold weights (List.range targets))
      (List.range sources) generator
    rw [List.length_range, List.length_range, ← Function.iterate_mul, Nat.mul_comm] at moved
    exact moved

end Neurochip.Scenario
