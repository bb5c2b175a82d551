import Neurochip.Proofs.Network.Configured

namespace Neurochip

/-!
# Every synapse steps by itself

The bookkeeping of a step, which synapses it touches and which changes it holds
back, cannot be seen from outside.  The main statement says for every group
between two steps, and for the groups of every network, that a step makes of each
synapse what its own two ends make of it, and that the reported number of
changed weights is right.
-/

namespace SynapseGroup

/-- A step of a group does to each synapse what concerns this synapse, and counts the weights that
it changes. -/
structure StepsEachAlone
    (group : SynapseGroup)
    (stimulus : Stimulus)
    (mode : RoundingMode) :
    Prop where
  marks : ∀ (position : Nat) before, group.synapses[position]? = some before →
    ∃ marked, (group.traced stimulus mode).synapses[position]? = some marked ∧
      (marked.arrived = true ↔
        before.pre ∈ group.arriving stimulus.spikes ∧ before.post < stimulus.targets) ∧
      (marked.spiked = true ↔ before.post ∈ stimulus.targetSpikes)
  outcome : ∀ (position : Nat) before, group.synapses[position]? = some before →
    ∃ decayed after,
      ((group.decayedTraces mode).run group.generator).1[position]? = some decayed ∧
      (group.stepped stimulus mode).2.synapses[position]? = some after ∧
      group.Outcome stimulus mode position before decayed after
  size : (group.stepped stimulus mode).2.size = group.size
  counted :
    (group.stepped stimulus mode).1 =
      differences group.synapses (group.stepped stimulus mode).2.synapses
  settled : (group.stepped stimulus mode).2.Settled

/-- A settled group whose indices belong to its connections steps each synapse alone. -/
theorem stepsEachAlone
    {group : SynapseGroup}
    (indexed : group.wiring.Indexed)
    (settled : group.Settled)
    (stimulus : Stimulus)
    (mode : RoundingMode) :
    group.StepsEachAlone stimulus mode := by
  constructor
  case marks =>
    intro position before found
    obtain ⟨decayed, decays⟩ := exists_decayedTraces mode found
    refine ⟨_, getElem?_traced indexed settled mode found decays, ?_, ?_⟩
    · simp [tracedSynapse, hears]
    · simp [tracedSynapse, answers]
  case outcome =>
    intro position before found
    obtain ⟨decayed, decays⟩ := exists_decayedTraces mode found
    obtain ⟨after, stepped, outcome⟩ :=
      outcome_stepped indexed settled stimulus mode found decays
    exact ⟨decayed, after, decays, stepped, outcome⟩
  case size =>
    exact size_of_wiring (wiring_stepped group stimulus mode)
  case counted => exact stepped_fst_eq_differences indexed settled stimulus mode
  case settled => exact settled_stepped settled stimulus mode

end SynapseGroup

namespace Network

/-- The step of a group in a network is that of the network's stimulus for it. -/
def GroupStepsEachAlone (network : Network) (time : Nat) (group : SynapseGroup) : Prop :=
  group.StepsEachAlone (network.stimulus time group) network.rounding

/-- The number of synapses of a network whose weight is another one in the second network. -/
def weightDifferences (before after : Network) : Nat :=
  tally (fun (old, new) => SynapseGroup.differences old.synapses new.synapses)
    (before.synapseGroups.zip after.synapseGroups)

/-- Wherever operations have led a synapse group, and calls a network, a step is one for each
synapse alone, and the report of a network's step counts exactly the weights that it changes. -/
theorem step_steps_each_synapse_alone :
    (∀ params generator group stimulus mode,
      SynapseGroup.Reachable params generator group → group.Settled →
      group.StepsEachAlone stimulus mode) ∧
    (∀ processors params network time, Reachable processors params network →
      (∀ group ∈ network.synapseGroups, network.GroupStepsEachAlone time group) ∧
      (network.step time).2.synapseGroups =
        network.synapseGroups.map (fun group =>
          (group.stepped (network.stimulus time group) network.rounding).2) ∧
      (network.step time).1.weightUpdates =
        weightDifferences network (network.step time).2) := by
  constructor
  · intro params generator group stimulus mode reachable settled
    exact SynapseGroup.stepsEachAlone reachable.indexed settled stimulus mode
  · intro processors params network time reachable
    have alone : ∀ group ∈ network.synapseGroups, network.GroupStepsEachAlone time group :=
      fun group member => SynapseGroup.stepsEachAlone
        (reachable.sound.indexed.of_mem member) (reachable.atRest.settled group member) _ _
    refine ⟨alone, by rw [step_eq]; rfl, ?_⟩
    rw [step_eq]
    exact tally_zip_map fun group member => (alone group member).counted

/-- The synapses of the pair of neurons step each alone, in their group and in the network. -/
theorem step_steps_each_synapse_alone_pair :
    (∃ group, SynapseGroup.Reachable .learning (.ofSeed 0) group ∧ group.Settled ∧
      group.StepsEachAlone { spikes := [0], targets := 2, targetSpikes := [1, 1] } .stochastic) ∧
    (∃ network, Reachable 1 .pair network ∧
      (network.step 0).1.weightUpdates = weightDifferences network (network.step 0).2) := by
  obtain ⟨start, accepted⟩ := exists_configure_pair
  have reachable : Reachable 1 .pair start := ⟨start, [], accepted, rfl⟩
  have settled := SynapseGroup.settled_atRest .learning
    (some SynapseGroupParams.learnedRule) (.ofSeed 0)
  have groupReachable : SynapseGroup.Reachable .learning (.ofSeed 0)
      (.atRest .learning (some SynapseGroupParams.learnedRule) (.ofSeed 0)) :=
    ⟨_, [], SynapseGroup.create_eq_ok_iff.mpr
      ⟨by decide, by decide, _, SynapseGroupParams.parse_learning, rfl⟩, rfl⟩
  exact ⟨⟨_, groupReachable, settled,
      step_steps_each_synapse_alone.1 _ _ _ _ _ groupReachable settled⟩,
    start, reachable, (step_steps_each_synapse_alone.2 1 .pair start 0 reachable).2.2⟩

end Network

end Neurochip
