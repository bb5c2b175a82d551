import Neurochip.Proofs.SynapseGroup.Marking
import Neurochip.Proofs.SynapseGroup.Wiring

namespace Neurochip

/-!
# Marks and traces of a step, synapse by synapse

A group between two steps is given the spikes of its source and of its target.
The main statement says what delivery and the trace update make of every single
synapse, without the lists and flags that they use: a synapse is marked by what
has happened at its own two ends, and its traces take up each kind of impulse at
most once.
-/

/-- Every position is found under its neuron, and only there. -/
theorem NeuronIndex.mem_lookup_ofNeurons {neuron position : Nat} {neurons : List Nat} :
    position ∈ (ofNeurons neurons).lookup neuron ↔ neurons[position]? = some neuron := by
  rw [lookup_ofNeurons, positions]
  constructor
  · intro member
    obtain ⟨entry, kept, rfl⟩ := List.mem_map.mp member
    obtain ⟨inList, same⟩ := List.mem_filter.mp kept
    rw [List.mem_zipIdx_iff_getElem?.mp inList, beq_iff_eq.mp same]
  · intro found
    exact List.mem_map.mpr ⟨(neuron, position), List.mem_filter.mpr
      ⟨List.mk_mem_zipIdx_iff_getElem?.mpr found, by simp⟩, rfl⟩

/-- What a synapse group is given in one step. -/
structure Stimulus where
  /-- The spikes of the source that set out in the step. -/
  spikes : List Nat
  /-- The number of neurons of the target. -/
  targets : Nat
  /-- The spikes of the target in the step. -/
  targetSpikes : List Nat
  deriving Repr, DecidableEq

/-- Decayed traces with the impulses of the sides on which something has happened. -/
def Traces.raisedBy
    (decayed : Traces)
    (params : Channels TraceParams)
    (arrived spiked : Bool) :
    Traces :=
  .ofFn fun channel =>
    if (if channel.isPre then arrived else spiked) then
      min (decayed.get channel + (params.get channel).impulse) 127
    else
      decayed.get channel

/-- Impulses are added on the sides of the marks. -/
theorem Synapse.addImpulses_eq (synapse : Synapse) (params : Channels TraceParams) :
    synapse.addImpulses params =
      synapse.withTraces (synapse.traces.raisedBy params synapse.arrived synapse.spiked) := by
  suffices same : (synapse.addImpulses params).traces =
      synapse.traces.raisedBy params synapse.arrived synapse.spiked by
    rw [withTraces, ← same]
    rfl
  apply Channels.ext_get
  intro channel
  unfold addImpulses Traces.raisedBy
  cases synapse.arrived <;> cases synapse.spiked <;> cases channel <;>
    simp [Traces.onPreSpike, Traces.onPostSpike, Traces.addImpulses, Traces.raised,
      Traces.range, Channel.isPre]

theorem Synapse.addImpulses_of_untouched
    {synapse : Synapse}
    (untouched : synapse.isTouched = false)
    (params : Channels TraceParams) :
    synapse.addImpulses params = synapse := by
  simp only [isTouched, Bool.or_eq_false_iff] at untouched
  cases synapse
  simp_all [addImpulses]

namespace SynapseGroup

/-- The indices belong to the connections, as they do from the start. -/
structure Wiring.Indexed (wiring : Wiring) : Prop where
  outgoing : wiring.outgoing = .ofNeurons (wiring.ends.map Prod.fst)
  incoming : wiring.incoming = .ofNeurons (wiring.ends.map Prod.snd)

/-- Between two steps no synapse has a mark and nothing waits to be committed. -/
structure Settled (group : SynapseGroup) : Prop where
  touched : group.touched = #[]
  pending : group.pending = []
  unmarked : ∀ synapse ∈ group.synapses, synapse.arrived = false ∧ synapse.spiked = false

/-- The spikes that arrive in a step in which the given ones set out. -/
def arriving (group : SynapseGroup) (spikes : List Nat) : List Nat :=
  (group.inFlight.schedule group.params.delay spikes).drain.1

/-- The positions that the arriving spikes reach, one after the other. -/
def reachedPositions (group : SynapseGroup) (spikes : List Nat) (targets : Nat) : List Nat :=
  ((group.arriving spikes).flatMap group.outgoing.lookup).filter (group.reaches targets)

/-- The positions at which the target spikes, one after the other. -/
def answeredPositions (group : SynapseGroup) (targetSpikes : List Nat) : List Nat :=
  targetSpikes.flatMap group.incoming.lookup

/-- Whether a spike arrives at a synapse with a target of the given size. -/
def hears (group : SynapseGroup) (stimulus : Stimulus) (synapse : Synapse) : Bool :=
  decide (synapse.pre ∈ group.arriving stimulus.spikes ∧ synapse.post < stimulus.targets)

/-- Whether the target of a synapse spikes. -/
def answers (stimulus : Stimulus) (synapse : Synapse) : Bool :=
  decide (synapse.post ∈ stimulus.targetSpikes)

/-- The group after the spikes of a step have been delivered and the traces updated. -/
def traced (group : SynapseGroup) (stimulus : Stimulus) (mode : RoundingMode) : SynapseGroup :=
  (group.transmit stimulus.spikes stimulus.targets).2.updateTraces stimulus.targetSpikes mode

/-- What becomes of one synapse, given its decayed traces. -/
def tracedSynapse
    (group : SynapseGroup)
    (stimulus : Stimulus)
    (synapse : Synapse)
    (decayed : Traces) :
    Synapse :=
  { synapse with
    traces :=
      decayed.raisedBy group.params.traces (group.hears stimulus synapse)
        (answers stimulus synapse)
    arrived := group.hears stimulus synapse
    spiked := answers stimulus synapse }

variable {group : SynapseGroup}

/-- An outgoing spike finds exactly the synapses of its neuron. -/
theorem mem_lookup_outgoing
    (indexed : group.wiring.Indexed)
    {neuron position : Nat} :
    position ∈ group.outgoing.lookup neuron ↔
      ∃ synapse, group.synapses[position]? = some synapse ∧ synapse.pre = neuron := by
  have outgoing : group.outgoing = .ofNeurons _ := indexed.outgoing
  rw [outgoing, NeuronIndex.mem_lookup_ofNeurons]
  simp [wiring, endsOf, Synapse.ends]

/-- A spike of the target finds exactly the synapses onto its neuron. -/
theorem mem_lookup_incoming
    (indexed : group.wiring.Indexed)
    {neuron position : Nat} :
    position ∈ group.incoming.lookup neuron ↔
      ∃ synapse, group.synapses[position]? = some synapse ∧ synapse.post = neuron := by
  have incoming : group.incoming = .ofNeurons _ := indexed.incoming
  rw [incoming, NeuronIndex.mem_lookup_ofNeurons]
  simp [wiring, endsOf, Synapse.ends]

/-- Exactly the synapses that hear a spike are reached. -/
theorem mem_reachedPositions
    (indexed : group.wiring.Indexed)
    {stimulus : Stimulus}
    {position : Nat} :
    position ∈ group.reachedPositions stimulus.spikes stimulus.targets ↔
      ∃ synapse, group.synapses[position]? = some synapse ∧
        group.hears stimulus synapse = true := by
  simp only [reachedPositions, List.mem_filter, List.mem_flatMap, mem_lookup_outgoing indexed,
    reaches, hears, decide_eq_true_eq]
  constructor
  · rintro ⟨⟨neuron, arrives, synapse, found, rfl⟩, inside⟩
    rw [found] at inside
    exact ⟨synapse, found, arrives, by simpa using inside⟩
  · rintro ⟨synapse, found, arrives, inside⟩
    exact ⟨⟨synapse.pre, arrives, synapse, found, rfl⟩, by simpa [found] using inside⟩

/-- Exactly the synapses whose target spikes are answered. -/
theorem mem_answeredPositions
    (indexed : group.wiring.Indexed)
    {stimulus : Stimulus}
    {position : Nat} :
    position ∈ group.answeredPositions stimulus.targetSpikes ↔
      ∃ synapse, group.synapses[position]? = some synapse ∧
        answers stimulus synapse = true := by
  simp only [answeredPositions, List.mem_flatMap, mem_lookup_incoming indexed, answers,
    decide_eq_true_eq]
  constructor
  · rintro ⟨neuron, spikes, synapse, found, rfl⟩
    exact ⟨synapse, found, spikes⟩
  · rintro ⟨synapse, found, spikes⟩
    exact ⟨synapse.post, spikes, synapse, found, rfl⟩

/-- Delivery marks the reached synapses, takes the current batch off the line, and changes nothing
else. -/
theorem transmit_eq (group : SynapseGroup) (spikes : List Nat) (targets : Nat) :
    group.transmit spikes targets =
      ((group.reachedPositions spikes targets).filterMap group.delivery?,
        { group with
          inFlight := (group.inFlight.schedule group.params.delay spikes).drain.2
          synapses :=
            (markAll Synapse.arrive (group.reachedPositions spikes targets) group.synapses
              group.touched).1
          touched :=
            (markAll Synapse.arrive (group.reachedPositions spikes targets) group.synapses
              group.touched).2 }) :=
  rfl

/-- The group in the middle of its trace update: decayed, and marked where the target spikes. -/
def markedAnswers
    (group : SynapseGroup)
    (targetSpikes : List Nat)
    (mode : RoundingMode) :
    SynapseGroup :=
  (group.decayTraces mode).mark Synapse.spike (group.answeredPositions targetSpikes)

/-- The trace update ends with the impulses of the touched synapses. -/
theorem updateTraces_eq (group : SynapseGroup) (targetSpikes : List Nat) (mode : RoundingMode) :
    group.updateTraces targetSpikes mode =
      (group.markedAnswers targetSpikes mode).updateTouched (·.addImpulses group.params.traces) :=
  rfl

/-- The positions touched by a step, those reached by a spike first. -/
def touchedPositions (group : SynapseGroup) (stimulus : Stimulus) : List Nat :=
  (group.reachedPositions stimulus.spikes stimulus.targets ++
    group.answeredPositions stimulus.targetSpikes).eraseDups

/-- Positions stay touched exactly when nothing changes a mark. -/
theorem TouchedExactly.of_same_marks
    {before after : Array Synapse}
    {touched : Array Nat}
    (exactly : TouchedExactly before touched)
    (same : after.toList.map Synapse.isTouched = before.toList.map Synapse.isTouched) :
    TouchedExactly after touched := by
  refine ⟨exactly.once, fun position => ?_⟩
  have here : after[position]?.map Synapse.isTouched = before[position]?.map Synapse.isTouched := by
    simpa using congrArg (·[position]?) same
  rw [exactly.marked]
  cases found : before[position]? with
  | none => simp_all
  | some old =>
      cases now : after[position]? with
      | none => simp_all
      | some new => simp_all

theorem map_isTouched_decayTraces (group : SynapseGroup) (mode : RoundingMode) :
    (group.decayTraces mode).synapses.toList.map Synapse.isTouched =
      group.synapses.toList.map Synapse.isTouched := by
  simp only [decayTraces, Array.mapM_eq_mapM_toList, Draw.run_map]
  exact Draw.map_run_mapM (fun _ _ => rfl) group.synapses.toList group.generator

/-- Where the touched positions are exact, impulses can as well be added to every synapse. -/
theorem getElem?_updateTouched_addImpulses
    (exactly : TouchedExactly group.synapses group.touched)
    (params : Channels TraceParams)
    (position : Nat) :
    (group.updateTouched (·.addImpulses params)).synapses[position]? =
      group.synapses[position]?.map (·.addImpulses params) := by
  simp only [updateTouched, ← Array.foldl_toList]
  exact exactly.getElem?_foldl_modify
    (fun synapse untouched => synapse.addImpulses_of_untouched untouched params) position

theorem Settled.isTouched
    (settled : group.Settled)
    {synapse : Synapse}
    (member : synapse ∈ group.synapses) :
    synapse.isTouched = false := by
  obtain ⟨quiet, silent⟩ := settled.unmarked synapse member
  simp [Synapse.isTouched, quiet, silent]

theorem Settled.touchedExactly (settled : group.Settled) :
    TouchedExactly group.synapses group.touched := by
  rw [settled.touched]
  exact touchedExactly_empty fun _ member => settled.isTouched member

/-- Delivery to a settled group marks each synapse that hears a spike. -/
theorem getElem?_transmit
    (indexed : group.wiring.Indexed)
    (settled : group.Settled)
    (stimulus : Stimulus)
    (position : Nat) :
    (group.transmit stimulus.spikes stimulus.targets).2.synapses[position]? =
      group.synapses[position]?.map fun synapse =>
        { synapse with arrived := group.hears stimulus synapse } := by
  simp only [transmit_eq, getElem?_markAll Synapse.isEvent_arrive, mem_reachedPositions indexed]
  cases found : group.synapses[position]? with
  | none => simp
  | some synapse =>
      have quiet := (settled.unmarked synapse (Array.mem_of_getElem? found)).1
      cases heard : group.hears stimulus synapse with
      | true => simp [heard, Synapse.arrive]
      | false =>
          have unchanged : { synapse with arrived := false } = synapse := by rw [← quiet]
          simp [heard, unchanged]

theorem map_traces_transmit (group : SynapseGroup) (spikes : List Nat) (targets : Nat) :
    (group.transmit spikes targets).2.synapses.toList.map Synapse.traces =
      group.synapses.toList.map Synapse.traces := by
  rw [transmit_eq]
  exact map_markAll Synapse.keeps_traces_arrive _ _ _

/-- Delivery changes nothing about the decay of the traces. -/
theorem run_decayedTraces_transmit
    (group : SynapseGroup)
    (spikes : List Nat)
    (targets : Nat)
    (mode : RoundingMode) :
    ((group.transmit spikes targets).2.decayedTraces mode).run
        (group.transmit spikes targets).2.generator =
      (group.decayedTraces mode).run group.generator := by
  unfold decayedTraces
  rw [map_traces_transmit]
  rfl

theorem TouchedExactly.transmit
    (exactly : TouchedExactly group.synapses group.touched)
    (spikes : List Nat)
    (targets : Nat) :
    TouchedExactly (group.transmit spikes targets).2.synapses
      (group.transmit spikes targets).2.touched :=
  exactly.markAll Synapse.isEvent_arrive _

theorem TouchedExactly.markedAnswers
    (exactly : TouchedExactly group.synapses group.touched)
    (targetSpikes : List Nat)
    (mode : RoundingMode) :
    TouchedExactly (group.markedAnswers targetSpikes mode).synapses
      (group.markedAnswers targetSpikes mode).touched :=
  (exactly.of_same_marks (map_isTouched_decayTraces group mode)).markAll Synapse.isEvent_spike _

/-- A trace update keeps the touched positions exact. -/
theorem TouchedExactly.updateTraces
    (exactly : TouchedExactly group.synapses group.touched)
    (targetSpikes : List Nat)
    (mode : RoundingMode) :
    TouchedExactly (group.updateTraces targetSpikes mode).synapses
      (group.updateTraces targetSpikes mode).touched := by
  refine (exactly.markedAnswers targetSpikes mode).of_same_marks ?_
  rw [updateTraces_eq]
  simp only [updateTouched, ← Array.foldl_toList]
  exact map_foldl_modify (Synapse.keeps_isTouched_addImpulses _) _ _

/-- A trace update marks the answered synapses after the decay, and then adds the impulses of all
marks. -/
theorem getElem?_updateTraces
    (exactly : TouchedExactly group.synapses group.touched)
    (targetSpikes : List Nat)
    (mode : RoundingMode)
    (position : Nat) :
    (group.updateTraces targetSpikes mode).synapses[position]? =
      (if position ∈ group.answeredPositions targetSpikes then
        (group.decayTraces mode).synapses[position]?.map Synapse.spike
      else
        (group.decayTraces mode).synapses[position]?).map (·.addImpulses group.params.traces) := by
  rw [updateTraces_eq,
    getElem?_updateTouched_addImpulses (exactly.markedAnswers targetSpikes mode)]
  congr 1
  exact getElem?_markAll Synapse.isEvent_spike _ _ _ position

/-- Each synapse of a settled group is marked by what happens at its own ends, and each of its
traces takes up at most one impulse. -/
theorem toList_traced
    (indexed : group.wiring.Indexed)
    (settled : group.Settled)
    (stimulus : Stimulus)
    (mode : RoundingMode) :
    (group.traced stimulus mode).synapses.toList =
      List.zipWith (group.tracedSynapse stimulus) group.synapses.toList
        ((group.decayedTraces mode).run group.generator).1 := by
  have sentExactly := settled.touchedExactly.transmit stimulus.spikes stimulus.targets
  apply List.ext_getElem?
  intro position
  have arrived := getElem?_transmit indexed settled stimulus position
  rw [Array.getElem?_toList, traced, getElem?_updateTraces sentExactly, decayTraces_eq,
    run_decayedTraces_transmit]
  simp only [List.getElem?_toArray, List.getElem?_zipWith, Array.getElem?_toList, arrived]
  -- The index of incoming synapses is searched after delivery, which has left it alone.
  have answered : ∀ synapse, group.synapses[position]? = some synapse →
      (position ∈ (group.transmit stimulus.spikes stimulus.targets).2.answeredPositions
          stimulus.targetSpikes ↔
        answers stimulus synapse = true) := by
    intro synapse found
    refine (mem_answeredPositions indexed).trans ⟨?_, fun spikes => ⟨synapse, found, spikes⟩⟩
    rintro ⟨other, foundOther, spikes⟩
    rw [found] at foundOther
    rwa [Option.some.inj foundOther]
  cases found : group.synapses[position]? with
  | none => simp
  | some synapse =>
      have silent := (settled.unmarked synapse (Array.mem_of_getElem? found)).2
      cases ((group.decayedTraces mode).run group.generator).1[position]? with
      | none => simp
      | some decayed =>
          have params : (group.transmit stimulus.spikes stimulus.targets).2.params = group.params :=
            rfl
          simp only [answered synapse found, Option.map_some, params]
          cases spikes : answers stimulus synapse <;>
            simp [spikes, tracedSynapse, Synapse.addImpulses_eq, Synapse.spike,
              Synapse.withTraces, silent]

theorem isUntouched_congr
    {before after : Array Synapse}
    (same : after.toList.map Synapse.isTouched = before.toList.map Synapse.isTouched) :
    isUntouched after = isUntouched before := by
  funext position
  have here : after[position]?.map Synapse.isTouched = before[position]?.map Synapse.isTouched := by
    simpa using congrArg (·[position]?) same
  unfold isUntouched
  cases found : before[position]? <;> cases now : after[position]? <;> simp_all

theorem Settled.isUntouched
    (settled : group.Settled)
    {synapse : Synapse}
    {position : Nat}
    (found : group.synapses[position]? = some synapse) :
    isUntouched group.synapses position = true := by
  simp [SynapseGroup.isUntouched, found, settled.isTouched (Array.mem_of_getElem? found)]

/-- After delivery the untouched positions are those that were not reached. -/
theorem isUntouched_transmit
    (indexed : group.wiring.Indexed)
    (settled : group.Settled)
    (stimulus : Stimulus)
    {synapse : Synapse}
    {position : Nat}
    (found : group.synapses[position]? = some synapse) :
    isUntouched (group.transmit stimulus.spikes stimulus.targets).2.synapses position =
      !(group.reachedPositions stimulus.spikes stimulus.targets).contains position := by
  have silent := (settled.unmarked synapse (Array.mem_of_getElem? found)).2
  have reached : position ∈ group.reachedPositions stimulus.spikes stimulus.targets ↔
      group.hears stimulus synapse = true := by
    rw [mem_reachedPositions indexed, found]
    simp
  unfold SynapseGroup.isUntouched
  rw [getElem?_transmit indexed settled, found]
  cases heard : group.hears stimulus synapse <;> simp_all [Synapse.isTouched]

/-- A step touches each reached or answered synapse once, in order of first mention. -/
theorem toList_touched_traced
    (indexed : group.wiring.Indexed)
    (settled : group.Settled)
    (stimulus : Stimulus)
    (mode : RoundingMode) :
    (group.traced stimulus mode).touched.toList = group.touchedPositions stimulus := by
  have reachedFirst :
      (group.transmit stimulus.spikes stimulus.targets).2.touched.toList =
        (group.reachedPositions stimulus.spikes stimulus.targets).eraseDups := by
    have untouched : ∀ position ∈ group.reachedPositions stimulus.spikes stimulus.targets,
        isUntouched group.synapses position = true := by
      intro position reached
      obtain ⟨synapse, found, _⟩ := (mem_reachedPositions indexed).mp reached
      exact settled.isUntouched found
    rw [transmit_eq]
    simp only [toList_markAll Synapse.isEvent_arrive, settled.touched,
      List.filter_eq_self.mpr untouched, List.nil_append]
  have answeredNext :
      (group.answeredPositions stimulus.targetSpikes).filter
          (isUntouched (group.transmit stimulus.spikes stimulus.targets).2.synapses) =
        (group.answeredPositions stimulus.targetSpikes).removeAll
          (group.reachedPositions stimulus.spikes stimulus.targets) := by
    apply List.filter_congr
    intro position answered
    obtain ⟨synapse, found, _⟩ := (mem_answeredPositions indexed).mp answered
    rw [isUntouched_transmit indexed settled stimulus found]
  have marked := toList_markAll Synapse.isEvent_spike
    (group.answeredPositions stimulus.targetSpikes)
    ((group.transmit stimulus.spikes stimulus.targets).2.decayTraces mode).synapses
    (group.transmit stimulus.spikes stimulus.targets).2.touched
  rw [isUntouched_congr (map_isTouched_decayTraces _ mode), reachedFirst, answeredNext,
    ← List.eraseDups_append] at marked
  exact marked

end SynapseGroup

end Neurochip
