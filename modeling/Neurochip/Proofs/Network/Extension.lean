import Neurochip.Proofs.Network.Delivery

namespace Neurochip

/-!
# Objects do not disturb each other

A description can be extended by objects behind those that it has.  As long as
no new synapse group ends at an old neuron group, the old objects go on exactly
as they would without the new ones, random draws included: each group draws from
a generator of its own, and what new synapses deliver is added to new neurons
only.
-/

namespace NetworkParams

/-- The description with the objects of another one behind its own. -/
def extendedBy (params added : NetworkParams) : NetworkParams :=
  { params with
    neuronGroups := params.neuronGroups ++ added.neuronGroups
    spikeSources := params.spikeSources ++ added.spikeSources
    synapseGroups := params.synapseGroups ++ added.synapseGroups }

end NetworkParams

/-- What is in front of a list is found at its own positions. -/
theorem getElem?_of_front
    {front items : List α}
    (inFront : front <+: items)
    {position : Nat}
    (inside : position < front.length) :
    items[position]? = front[position]? := by
  obtain ⟨rest, rfl⟩ := inFront
  exact List.getElem?_append_left inside

namespace Network

/-- A network with more objects behind those of another one, whose additional synapse groups end at
additional neuron groups. -/
structure Extends (small large : Network) : Prop where
  neurons : small.neuronGroups <+: large.neuronGroups
  sources : small.spikeSources <+: large.spikeSources
  synapses : ∃ added, large.synapseGroups = small.synapseGroups ++ added ∧
    ∀ group ∈ added, small.neuronGroups.length ≤ group.target
  rounding : large.rounding = small.rounding

variable {small large : Network}

/-- The last spikes of the objects that both networks have are the same. -/
theorem Extends.lastSpikes_eq
    (extends_ : Extends small large)
    {source : SourceRef}
    (present : small.layout.HasSource source) :
    large.lastSpikes source = small.lastSpikes source := by
  cases source with
  | neuronGroup group =>
      rw [Layout.HasSource, layout, List.length_map] at present
      rw [lastSpikes, lastSpikes, getElem?_of_front extends_.neurons present]
  | spikeSource source =>
      rw [Layout.HasSource, layout, List.length_map] at present
      rw [lastSpikes, lastSpikes, getElem?_of_front extends_.sources present]

/-- When its sources have emitted, the large network still extends the small one. -/
theorem Extends.emit
    (extends_ : Extends small large)
    (time : Nat) :
    Extends (small.emit time) (large.emit time) :=
  ⟨extends_.neurons, extends_.sources.map _, extends_.synapses, extends_.rounding⟩

/-- In both networks a synapse group of the small one is sent the same spikes, for as many targets. -/
theorem Extends.sent_eq
    (extends_ : Extends small large)
    (sound : small.layout.Sound)
    {group : SynapseGroup}
    (member : group ∈ small.synapseGroups)
    (time : Nat) :
    (large.emit time).lastSpikes group.source = (small.emit time).lastSpikes group.source ∧
      large.groupSize group.target = small.groupSize group.target := by
  have source := sound.source group.wiring (List.mem_map_of_mem member)
  have inside := (sound.post_lt_groupSize member).1
  rw [← layout_emit small time] at source
  refine ⟨(extends_.emit time).lastSpikes_eq source, ?_⟩
  rw [groupSize, groupSize, getElem?_of_front extends_.neurons inside]

/-- To the neuron groups of the small network, only its own synapse groups deliver. -/
theorem Extends.deliveriesTo_eq
    (extends_ : Extends small large)
    (sound : small.layout.Sound)
    (time : Nat)
    {target : Nat}
    (inside : target < small.neuronGroups.length) :
    deliveriesTo target (large.emit time).transmissions =
      deliveriesTo target (small.emit time).transmissions := by
  obtain ⟨added, synapses, beyond⟩ := extends_.synapses
  have split : (large.emit time).transmissions =
      (small.synapseGroups.map fun group =>
        group.transmit ((large.emit time).lastSpikes group.source)
          (large.groupSize group.target)) ++
        added.map fun group =>
          group.transmit ((large.emit time).lastSpikes group.source)
            (large.groupSize group.target) := by
    rw [← List.map_append, ← synapses]
    rfl
  have old : (small.synapseGroups.map fun group =>
        group.transmit ((large.emit time).lastSpikes group.source)
          (large.groupSize group.target)) =
      (small.emit time).transmissions := by
    refine List.map_congr_left fun group member => ?_
    obtain ⟨spikes, targets⟩ := extends_.sent_eq sound member time
    rw [spikes, targets]
    rfl
  -- What is left to show is that the additional groups deliver nothing here.
  rw [split, old, deliveriesTo_append, List.append_right_eq_self, List.eq_nil_iff_forall_not_mem]
  intro delivery delivered
  obtain ⟨_, sent, aimed, _⟩ := mem_deliveriesTo.mp delivered
  obtain ⟨group, memberAdded, rfl⟩ := List.mem_map.mp sent
  exact absurd (beyond group memberAdded) (by rw [show group.target = target from aimed]; omega)

/-- The neuron groups that both networks have are updated in the same way. -/
theorem Extends.neurons_next
    (extends_ : Extends small large)
    (sound : small.layout.Sound)
    (time : Nat) :
    (small.next time).neuronGroups <+: (large.next time).neuronGroups := by
  rw [List.prefix_iff_getElem?]
  intro target inside
  rw [← List.getElem?_eq_getElem inside]
  rw [length_neuronGroups_next] at inside
  rw [getElem?_neuronGroups_next, getElem?_neuronGroups_next,
    extends_.deliveriesTo_eq sound time inside, getElem?_of_front extends_.neurons inside,
    extends_.rounding]

/-- The synapse groups that both networks have step in the same way. -/
theorem Extends.steppedGroup_eq
    (extends_ : Extends small large)
    (sound : small.layout.Sound)
    {group : SynapseGroup}
    (member : group ∈ small.synapseGroups)
    (time : Nat) :
    large.steppedGroup time group = small.steppedGroup time group := by
  obtain ⟨spikes, targets⟩ := extends_.sent_eq sound member time
  have inside : group.target < (small.next time).neuronGroups.length := by
    rw [length_neuronGroups_next]
    exact (sound.post_lt_groupSize member).1
  have targetSpikes : (large.halfway time).lastSpikes (.neuronGroup group.target) =
      (small.halfway time).lastSpikes (.neuronGroup group.target) := by
    have found := getElem?_of_front (extends_.neurons_next sound time) inside
    simp only [lastSpikes]
    rw [show (large.halfway time).neuronGroups[group.target]? = _ from found]
    rfl
  rw [steppedGroup, steppedGroup, stimulus, stimulus, spikes, targets, targetSpikes,
    extends_.rounding]

/-- After a step one network still extends the other. -/
theorem Extends.next
    (extends_ : Extends small large)
    (sound : small.layout.Sound)
    (time : Nat) :
    Extends (small.next time) (large.next time) := by
  obtain ⟨added, synapses, beyond⟩ := extends_.synapses
  refine ⟨extends_.neurons_next sound time, (extends_.emit time).sources,
    ⟨added.map fun group => (large.steppedGroup time group).2, ?_, ?_⟩, extends_.rounding⟩
  · have old : (small.next time).synapseGroups =
        small.synapseGroups.map fun group => (large.steppedGroup time group).2 :=
      List.map_congr_left fun group member => by
        rw [extends_.steppedGroup_eq sound member]
    rw [old, ← List.map_append, ← synapses]
    rfl
  · intro after member
    obtain ⟨group, memberAdded, rfl⟩ := List.mem_map.mp member
    have target : (large.steppedGroup time group).2.target = group.target :=
      congrArg SynapseGroup.Wiring.target (wiring_steppedGroup large time group)
    rw [target, length_neuronGroups_next]
    exact beyond group memberAdded

/-- Both networks report the same spikes of the objects that both have. -/
theorem Extends.indicesFor_reportOf
    (extends_ : Extends small large)
    (sound : small.layout.Sound)
    (time : Nat)
    {source : SourceRef}
    (present : small.layout.HasSource source) :
    (large.reportOf time).indicesFor (.ofSource source) =
      (small.reportOf time).indicesFor (.ofSource source) := by
  cases source with
  | neuronGroup group =>
      rw [Layout.HasSource, layout, List.length_map, ← length_neuronGroups_next _ time] at present
      rw [ObjectId.ofSource, indicesFor_reportOf_neuronGroup, indicesFor_reportOf_neuronGroup,
        getElem?_of_front (extends_.neurons_next sound time) present]
  | spikeSource source =>
      rw [← layout_emit small time, Layout.HasSource, layout, List.length_map] at present
      rw [ObjectId.ofSource, indicesFor_reportOf_spikeSource, indicesFor_reportOf_spikeSource,
        getElem?_of_front (extends_.emit time).sources present]

variable {processors : Nat} {params added : NetworkParams}

/-- The objects of a description come first in the one that is extended. -/
theorem extends_initial
    (apart : ∀ group ∈ added.synapseGroups, params.neuronGroups.length ≤ group.target) :
    Extends (initial params) (initial (params.extendedBy added)) := by
  refine ⟨?_, ?_, ?_, rfl⟩
  · simp only [initial, NetworkParams.extendedBy, List.zipIdx_append, List.map_append]
    exact List.prefix_append _ _
  · simp only [initial, NetworkParams.extendedBy, List.map_append]
    exact List.prefix_append _ _
  · simp only [initial, NetworkParams.extendedBy, List.zipIdx_append, List.map_append]
    refine ⟨_, rfl, fun group member => ?_⟩
    obtain ⟨entry, described, rfl⟩ := List.mem_map.mp member
    exact (List.length_map _).trans_le
      (List.length_zipIdx.trans_le (apart entry.1 (List.fst_mem_of_mem_zipIdx described)))

/-- However both networks are stepped, one extends the other. -/
theorem Extends.steps
    (accepted : configure processors params = .ok small)
    (extends_ : Extends small large)
    (times : List Nat) :
    Extends (small.steps times).2 (large.steps times).2 ∧
      ∀ source, small.layout.HasSource source →
        (large.steps times).1.map (·.indicesFor (.ofSource source)) =
          (small.steps times).1.map (·.indicesFor (.ofSource source)) := by
  induction times using List.reverseRecOn with
  | nil => exact ⟨extends_, fun _ _ => rfl⟩
  | append_singleton times time inductionHypothesis =>
      obtain ⟨reached, sameReports⟩ := inductionHypothesis
      have sameLayout : (small.steps times).2.layout = small.layout :=
        (layout_performAll accepted _).1
      have sound := sound_of_configure accepted
      rw [← sameLayout] at sound
      rw [steps_concat, steps_concat]
      refine ⟨reached.next sound time, fun source present => ?_⟩
      rw [List.map_append, List.map_append, sameReports source present]
      rw [← sameLayout] at present
      rw [List.map_singleton, List.map_singleton, reached.indicesFor_reportOf sound time present]

/-- Objects behind those of a description, whose synapses all end at neurons behind, do not disturb
the objects of the description: in every rounding mode and at whatever times both networks are
stepped, the old objects spike in the same way in every step, and after it the old groups are the
same. -/
theorem added_objects_do_not_disturb
    (accepted : configure processors params = .ok small)
    (apart : ∀ group ∈ added.synapseGroups, params.neuronGroups.length ≤ group.target)
    (acceptedExtended : configure processors (params.extendedBy added) = .ok large)
    (times : List Nat) :
    (∀ source size, params.sourceSize? source = some size →
      (large.steps times).1.map (·.indicesFor (.ofSource source)) =
        (small.steps times).1.map (·.indicesFor (.ofSource source))) ∧
    (large.steps times).2.neuronGroups.take params.neuronGroups.length =
      (small.steps times).2.neuronGroups ∧
    (large.steps times).2.synapseGroups.take params.synapseGroups.length =
      (small.steps times).2.synapseGroups := by
  have extends_ : Extends small large := by
    rw [eq_initial_of_configure accepted, eq_initial_of_configure acceptedExtended]
    exact extends_initial apart
  obtain ⟨reached, sameReports⟩ := extends_.steps accepted times
  obtain ⟨neuronCount, synapseCount⟩ := length_groups_performAll accepted (times.map .step)
  rw [← steps] at neuronCount synapseCount
  obtain ⟨_, _, built⟩ := configure_eq_ok_iff.mp accepted
  refine ⟨fun source size found => sameReports source (hasSource_ofParams built found), ?_, ?_⟩
  · rw [← neuronCount]
    exact (List.prefix_iff_eq_take.mp reached.neurons).symm
  · obtain ⟨_, synapses, _⟩ := reached.synapses
    rw [← synapseCount, synapses, List.take_left]

end Network

/-- Neurons that listen to the spike source and to the neurons of the pair, and to a source of their
own. -/
def NetworkParams.listeners : NetworkParams :=
  { neuronGroups := [{ size := 2 }]
    spikeSources := [{ size := 1, indices := [0], times := [2] }]
    synapseGroups :=
      [{ SynapseGroupParams.learning with target := 1 },
        { source := .neuronGroup 0
          target := 1
          connections := [{ pre := 1, post := 0, weight := 40 }] },
        { source := .spikeSource 1
          target := 1
          connections := [{ pre := 0, post := 1, weight := 90 }] }] }

namespace Network

/-- The pair of neurons, which rounds at random, spikes in the same way with and without listeners. -/
theorem added_objects_do_not_disturb_pair :
    ∃ small large,
      configure 1 .pair = .ok small ∧
      configure 1 (NetworkParams.pair.extendedBy .listeners) = .ok large ∧
      ∀ times,
        (large.steps times).1.map (·.indicesFor (.neuronGroup 0)) =
          (small.steps times).1.map (·.indicesFor (.neuronGroup 0)) ∧
        (large.steps times).2.synapseGroups.take 2 = (small.steps times).2.synapseGroups := by
  have parsed : ∀ group ∈ (NetworkParams.pair.extendedBy .listeners).synapseGroups,
      ∃ rule, LearningRule.parse? group.synapse.learningRule = .ok rule := by
    intro group member
    rcases List.mem_append.mp member with old | new
    · exact NetworkParams.parse_pair group old
    · simp only [NetworkParams.listeners, List.mem_cons, List.not_mem_nil, or_false] at new
      rcases new with rfl | rfl | rfl
      · exact ⟨_, SynapseGroupParams.parse_learning⟩
      · exact ⟨none, by decide +kernel⟩
      · exact ⟨none, by decide +kernel⟩
  have apart : ∀ group ∈ NetworkParams.listeners.synapseGroups,
      NetworkParams.pair.neuronGroups.length ≤ group.target := by
    decide
  obtain ⟨small, accepted⟩ := exists_configure_pair
  obtain ⟨large, acceptedExtended⟩ := @exists_configure 1
    (NetworkParams.pair.extendedBy .listeners) rfl (by decide +kernel) parsed
  refine ⟨small, large, accepted, acceptedExtended, fun times => ?_⟩
  obtain ⟨spikes, _, synapses⟩ :=
    added_objects_do_not_disturb accepted apart acceptedExtended times
  exact ⟨spikes (.neuronGroup 0) 2 rfl, synapses⟩

end Network

end Neurochip
