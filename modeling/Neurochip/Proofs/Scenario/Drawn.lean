import Neurochip.Params.Acceptable
import Neurochip.Proofs.Random.Draws
import Neurochip.Proofs.Random.Samples
import Neurochip.Scenario

namespace Neurochip

/-!
# What the random scenario draws

A stimulus has distinct events of its own neurons within its period, and a
projection connects each pair of neurons at most once, with weights of its
range.  This holds for every count, sample, chance and weight that is drawn.
-/

/-- Distinct events do not follow themselves, in whatever order they are played. -/
theorem SpikeSourceParams.distinct_events
    {params : SpikeSourceParams}
    (distinct : (params.times.zip params.indices).Nodup) :
    SpikeEvent.Distinct params.events := by
  have paired : List.zipWith SpikeEvent.mk params.times params.indices =
      (params.times.zip params.indices).map fun event => ⟨event.1, event.2⟩ := by
    rw [List.zip, List.map_zipWith]
  have recorded : (List.zipWith SpikeEvent.mk params.times params.indices).Nodup := by
    rw [paired]
    exact distinct.map fun first second same => Prod.ext (SpikeEvent.mk.inj same).1
      (SpikeEvent.mk.inj same).2
  have played : params.events.Nodup := by
    unfold events
    dsimp only
    split
    · exact recorded
    · exact (List.mergeSort_perm _ _).nodup_iff.mpr recorded
  intro position event place next
  have same := (List.getElem?_inj (List.getElem?_eq_some_iff.mp place).1 played).mp
    (place.trans next.symm)
  omega

namespace Scenario

/-- The spikes of a step belong to a sample of the neurons. -/
theorem exists_run_drawSpikes (size time : Nat) (generator : Generator) :
    ∃ amount indices, Draw.IsSample size amount indices ∧
      ((drawSpikes size time).run generator).1 =
        indices.map fun index => { time := time, index := index } :=
  ⟨_, _, Draw.isSample_run_sample size _ _, rfl⟩

/-- The spikes of a step are at its time, of existing neurons. -/
theorem of_mem_run_drawSpikes
    {size time : Nat}
    {generator : Generator}
    {event : SpikeEvent}
    (member : event ∈ ((drawSpikes size time).run generator).1) :
    event.time = time ∧ event.index < size := by
  obtain ⟨amount, indices, sample, drawn⟩ := exists_run_drawSpikes size time generator
  rw [drawn, List.mem_map] at member
  obtain ⟨index, chosen, rfl⟩ := member
  exact ⟨rfl, sample.below index chosen⟩

/-- The spikes of a step are of distinct neurons. -/
theorem nodup_run_drawSpikes (size time : Nat) (generator : Generator) :
    (((drawSpikes size time).run generator).1.map fun event =>
      (event.time, event.index)).Nodup := by
  obtain ⟨amount, indices, sample, drawn⟩ := exists_run_drawSpikes size time generator
  rw [drawn, List.map_map]
  exact sample.distinct.map fun first second same => (Prod.mk.inj same).2

/-- Events are drawn for a source: distinct ones of its neurons, within its period. -/
structure IsStimulus (source drawn : SpikeSourceParams) : Prop where
  size : drawn.size = source.size
  period : drawn.period = source.period
  complete : drawn.indices.length = drawn.times.length
  indices : ∀ index ∈ drawn.indices, index < source.size
  times : ∀ time ∈ drawn.times, time < source.period
  events : (drawn.times.zip drawn.indices).Nodup

/-- A source gets a stimulus if it has no events yet. -/
theorem isStimulus_run_drawStimulus
    {source : SpikeSourceParams}
    (noIndices : source.indices = [])
    (noTimes : source.times = [])
    (generator : Generator) :
    IsStimulus source ((drawStimulus source).run generator).1 := by
  let events := (((List.range source.period).mapM (drawSpikes source.size)).run generator).1.flatten
  have labelled : ∀ time generator, ∀ event ∈ ((drawSpikes source.size time).run generator).1,
      (event.time, event.index).1 = time :=
    fun time generator event member => (of_mem_run_drawSpikes member).1
  have steps : ∀ event ∈ events, event.time < source.period ∧ event.index < source.size := by
    refine Draw.forall_mem_flatten_run_mapM _ (fun time inPeriod before event member => ?_)
      generator
    obtain ⟨rfl, existing⟩ := of_mem_run_drawSpikes member
    exact ⟨List.mem_range.mp inPeriod, existing⟩
  have distinct : (events.map fun event => (event.time, event.index)).Nodup :=
    Draw.nodup_map_flatten_run_mapM labelled (nodup_run_drawSpikes source.size)
      List.nodup_range generator
  have given : ((drawStimulus source).run generator).1 = { source with
      indices := events.map (·.index)
      times := events.map (·.time)
      sorted := false } := by
    simp [drawStimulus, noIndices, noTimes, events]
  rw [given]
  exact
    { size := rfl
      period := rfl
      complete := by rw [List.length_map, List.length_map]
      indices := List.forall_mem_map.mpr fun event member => (steps event member).2
      times := List.forall_mem_map.mpr fun event member => (steps event member).1
      events := by
        rw [List.zip_map']
        exact distinct }

/-- The pair of neurons that a connection connects. -/
def ends (connection : Connection) : Nat × Nat :=
  (connection.pre, connection.post)

/-- Connections between objects of the given sizes, at most one for each pair of neurons, with
weights of the given range. -/
structure Connects (weights : Bounds) (sources targets : Nat) (connections : List Connection) :
    Prop where
  pre : ∀ connection ∈ connections, connection.pre < sources
  post : ∀ connection ∈ connections, connection.post < targets
  weight : ∀ connection ∈ connections, weights.Contains connection.weight
  distinct : (connections.map ends).Nodup

variable {threshold : UInt64} {weights : Bounds}

/-- A row connects its neuron, with weights of the range. -/
theorem of_mem_run_drawRow
    {pre : Nat}
    {posts : List Nat}
    {generator : Generator}
    {connection : Connection}
    (member : connection ∈ ((drawRow threshold weights pre posts).run generator).1) :
    connection.pre = pre ∧ weights.Contains connection.weight := by
  induction posts generalizing generator with
  | nil => cases member
  | cons post rest inductionHypothesis =>
      rw [drawRow, Draw.run_bind] at member
      split at member
      · rw [Draw.run_bind, Draw.run_bind, Draw.run_pure] at member
        rcases List.mem_cons.mp member with rfl | later
        · exact ⟨rfl, Draw.contains_run_within weights _⟩
        · exact inductionHypothesis later
      · exact inductionHypothesis member

/-- A row connects its neuron to some of the others, in their order. -/
theorem sublist_run_drawRow
    (threshold : UInt64)
    (weights : Bounds)
    (pre : Nat)
    (posts : List Nat)
    (generator : Generator) :
    (((drawRow threshold weights pre posts).run generator).1.map (·.post)).Sublist posts := by
  induction posts generalizing generator with
  | nil => exact .slnil
  | cons post rest inductionHypothesis =>
      rw [drawRow, Draw.run_bind]
      split
      · rw [Draw.run_bind, Draw.run_bind, Draw.run_pure]
        exact (inductionHypothesis _).cons_cons post
      · exact (inductionHypothesis _).cons post

/-- Rows for distinct neurons connect each pair at most once. -/
theorem connects_run_rows
    (threshold : UInt64)
    (weights : Bounds)
    (sources targets : Nat)
    (generator : Generator) :
    Connects weights sources targets
      (((List.range sources).mapM fun pre =>
        drawRow threshold weights pre (List.range targets)).run generator).1.flatten := by
  have labelled : ∀ pre generator,
      ∀ connection ∈ ((drawRow threshold weights pre (List.range targets)).run generator).1,
        (ends connection).1 = pre :=
    fun pre generator connection member => (of_mem_run_drawRow member).1
  have inside : ∀ connection ∈ (((List.range sources).mapM fun pre =>
      drawRow threshold weights pre (List.range targets)).run generator).1.flatten,
      connection.pre < sources ∧ connection.post < targets ∧
        weights.Contains connection.weight := by
    refine Draw.forall_mem_flatten_run_mapM _ (fun pre small before connection member => ?_)
      generator
    have posts := sublist_run_drawRow threshold weights pre (List.range targets) before
    obtain ⟨rfl, weight⟩ := of_mem_run_drawRow member
    exact ⟨List.mem_range.mp small,
      List.mem_range.mp (posts.subset (List.mem_map_of_mem member)), weight⟩
  have distinct : ∀ pre before,
      (((drawRow threshold weights pre (List.range targets)).run before).1.map ends).Nodup := by
    intro pre before
    have posts := sublist_run_drawRow threshold weights pre (List.range targets) before
    refine List.Nodup.of_map Prod.snd ?_
    rw [List.map_map]
    exact List.nodup_range.sublist posts
  exact
    { pre := fun connection member => (inside connection member).1
      post := fun connection member => (inside connection member).2.1
      weight := fun connection member => (inside connection member).2.2
      distinct := Draw.nodup_map_flatten_run_mapM labelled distinct List.nodup_range generator }

/-- The connection from a neuron to the one with the same index. -/
def drawPair (weights : Bounds) (neuron : Nat) : Draw Connection := do
  let weight ← Draw.within weights
  return { pre := neuron, post := neuron, weight := weight }

/-- A connection for each neuron connects each pair at most once. -/
theorem connects_run_pairs
    (weights : Bounds)
    (sources targets : Nat)
    (generator : Generator) :
    Connects weights sources targets
      (((List.range (min sources targets)).mapM (drawPair weights)).run generator).1 := by
  have pairs : ∀ connection ∈
      (((List.range (min sources targets)).mapM (drawPair weights)).run generator).1,
      connection.pre < sources ∧ connection.post < targets ∧
        weights.Contains connection.weight := by
    refine Draw.forall_mem_run_mapM
      (fun connection : Connection => connection.pre < sources ∧ connection.post < targets ∧
        weights.Contains connection.weight)
      (fun neuron member before => ?_) generator
    have small := Nat.lt_min.mp (List.mem_range.mp member)
    exact ⟨small.1, small.2, Draw.contains_run_within weights before⟩
  have firsts :
      (((List.range (min sources targets)).mapM (drawPair weights)).run generator).1.map
        (Prod.fst ∘ ends) = (List.range (min sources targets)).map id :=
    Draw.map_run_mapM (fun _ _ => rfl) _ generator
  exact
    { pre := fun connection member => (pairs connection member).1
      post := fun connection member => (pairs connection member).2.1
      weight := fun connection member => (pairs connection member).2.2
      distinct := List.Nodup.of_map Prod.fst (by
        rw [List.map_map, firsts, List.map_id]
        exact List.nodup_range) }

/-- What is drawn for a projection connects the objects. -/
theorem connects_run_drawConnections
    (projection : Projection)
    (sources targets : Nat)
    (generator : Generator) :
    Connects projection.weights sources targets
      ((drawConnections projection sources targets).run generator).1 := by
  unfold drawConnections
  split
  · exact connects_run_pairs projection.weights sources targets generator
  · exact connects_run_rows _ projection.weights sources targets generator

end Scenario

end Neurochip
