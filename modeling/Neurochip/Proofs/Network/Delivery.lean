import Neurochip.Proofs.Network.History
import Neurochip.Proofs.SynapseGroup.Deliveries

namespace Neurochip

/-!
# Every spike is delivered once, after its delay

Spikes go through ring buffers, indices and inputs that several synapse groups
share.  The main statement describes their effect by the reports alone: what a
neuron takes up in a step, how many transmissions the step counts, and how many
spikes are on their way after it.
-/

namespace Network

/-- The synapses of a group that transmit in a step, once for each spike that arrives. -/
def transmitting
    (history : List StepReport)
    (step : Nat)
    (group : SynapseGroup) :
    List Synapse :=
  (arrivalsAt history group step).flatMap fun spike =>
    group.synapses.toList.filter fun synapse => decide (synapse.pre = spike)

/-- The synapses onto one neuron of a target that transmit in a step: for each group with this
target and each spike that arrives at the group, those from the neuron of the spike. -/
def due
    (network : Network)
    (history : List StepReport)
    (step target neuron : Nat) :
    List Synapse :=
  network.synapseGroups.flatMap fun group =>
    if group.target = target then
      (arrivalsAt history group step).flatMap fun spike =>
        group.synapses.toList.filter fun synapse =>
          decide (synapse.pre = spike ∧ synapse.post = neuron)
    else
      []

/-- The number of spikes that a synapse group has been sent in the last steps of its delay. -/
def sentLately (history : List StepReport) (group : SynapseGroup) (step : Nat) : Nat :=
  tally
    (fun ago =>
      if ago ≤ step then (sentAt history group.source (step - ago)).length else 0)
    (List.range group.params.delay)

/-- The network of a step at the time of its neuron update. -/
def delivered (network : Network) (time : Nat) : Network :=
  (StepProgress.run { network := network, report := .atTime time } .spikeDelivery).network

/-- What a neuron takes up when the neurons are updated. -/
def consumed (network : Network) (time target neuron : Nat) : Option Int :=
  (network.delivered time).neuronGroups[target]?.bind (·.input[neuron]?)

/-- All transmissions of a step with their target group. -/
def allTransmitting
    (network : Network)
    (history : List StepReport)
    (step : Nat) :
    List (Nat × Synapse) :=
  network.synapseGroups.flatMap fun group =>
    (transmitting history step group).map fun synapse => (group.target, synapse)

/-- The transmitting synapses onto a neuron, spike by spike. -/
theorem filter_transmitting
    (history : List StepReport)
    (step : Nat)
    (group : SynapseGroup)
    (neuron : Nat) :
    ((transmitting history step group).filter fun synapse => decide (synapse.post = neuron)) =
      (arrivalsAt history group step).flatMap fun spike =>
        group.synapses.toList.filter fun synapse =>
          decide (synapse.pre = spike ∧ synapse.post = neuron) := by
  simp only [transmitting, List.filter_flatMap, List.filter_filter, Bool.decide_and,
    Bool.and_comm]

/-- The transmissions that are due are those with the given target and neuron. -/
theorem due_eq
    (network : Network)
    (history : List StepReport)
    (step target neuron : Nat) :
    network.due history step target neuron =
      (((network.allTransmitting history step).filter fun entry =>
        decide (entry.1 = target)).filter fun entry =>
          decide (entry.2.post = neuron)).map Prod.snd := by
  rw [due, allTransmitting, List.filter_flatMap, List.filter_flatMap, List.map_flatMap]
  refine congrArg (List.flatMap · _) (funext fun group => ?_)
  by_cases same : group.target = target
  · rw [if_pos same, ← filter_transmitting]
    simp [same, List.filter_map, Function.comp_def]
  · simp [same]

variable {history : List StepReport} {network : Network} {time : Nat}

/-- The neurons of a target group exist, and all synapses end there. -/
theorem Layout.Sound.post_lt_groupSize
    (sound : network.layout.Sound)
    {group : SynapseGroup}
    (member : group ∈ network.synapseGroups) :
    group.target < network.neuronGroups.length ∧
      ∀ synapse ∈ group.synapses.toList, synapse.post < network.groupSize group.target := by
  obtain ⟨neurons, place, inside⟩ := sound.target group.wiring (List.mem_map_of_mem member)
  have place : (network.neuronGroups.map (·.frame))[group.target]? = some neurons := place
  rw [List.getElem?_map] at place
  obtain ⟨target, found, rfl⟩ := Option.map_eq_some_iff.mp place
  refine ⟨(List.getElem?_eq_some_iff.mp found).1, ?_⟩
  intro synapse memberSynapse
  rw [groupSize, found]
  exact inside synapse.ends (List.mem_map_of_mem memberSynapse)

/-- The synapses of a group that transmit deliver the deliveries of the group. -/
theorem Carries.deliveries_eq
    (carries : Carries history network)
    (sound : network.layout.Sound)
    {group : SynapseGroup}
    (member : group ∈ network.synapseGroups) :
    (group.transmit (network.stimulus time group).spikes
        (network.stimulus time group).targets).1 =
      (transmitting (history ++ [network.reportOf time]) history.length group).map
        Synapse.delivery := by
  have arriving := carries.arriving_eq time member (sound.reach_of_mem member)
  have inside := (sound.post_lt_groupSize member).2
  rw [SynapseGroup.deliveries_eq (sound.indexed.of_mem member), arriving, transmitting]
  refine congrArg (List.map _) (congrArg (List.flatMap · _) (funext fun spike => ?_))
  apply List.filter_congr
  intro synapse memberSynapse
  have near : synapse.post < (network.stimulus time group).targets :=
    inside synapse memberSynapse
  simp [near]

/-- What is delivered to a target in a step, in the order of its groups. -/
theorem Carries.deliveriesTo_eq
    (carries : Carries history network)
    (sound : network.layout.Sound)
    (target : Nat) :
    deliveriesTo target (network.emit time).transmissions =
      (((network.allTransmitting (history ++ [network.reportOf time]) history.length).filter
        fun entry => decide (entry.1 = target)).map Prod.snd).map Synapse.delivery := by
  rw [deliveriesTo_transmissions, allTransmitting, List.filter_flatMap, List.map_flatMap,
    List.map_flatMap]
  apply List.flatMap_congr
  intro group member
  have ofGroup : (group.transmit (network.stimulus time group).spikes
      (network.stimulus time group).targets).1 = _ := carries.deliveries_eq sound member
  by_cases same : group.target = target
  · rw [if_pos same]
    refine ofGroup.trans ?_
    simp [same, List.filter_map, Function.comp_def]
  · simp [same]

/-- The number of transmissions of a step. -/
theorem Carries.transmissions_reportOf
    (carries : Carries history network)
    (sound : network.layout.Sound)
    (time : Nat) :
    (network.reportOf time).transmissions =
      (network.allTransmitting (history ++ [network.reportOf time]) history.length).length := by
  have counted : (network.reportOf time).transmissions =
      tally (fun group => (group.transmit (network.stimulus time group).spikes
        (network.stimulus time group).targets).1.length) network.synapseGroups :=
    tally_map _ _ _
  rw [counted, allTransmitting, length_flatMap_eq_tally]
  apply tally_congr
  intro group member
  rw [carries.deliveries_eq sound member, List.length_map, List.length_map]

/-- In a step of a network at rest each neuron takes up the weights of what is due to it. -/
theorem Carries.consumed_eq
    (carries : Carries history network)
    (sound : network.layout.Sound)
    (atRest : network.AtRest)
    (time : Nat)
    {target : Nat}
    {group : NeuronGroup}
    (found : network.neuronGroups[target]? = some group)
    {neuron : Nat}
    (inside : neuron < group.size) :
    network.consumed time target neuron =
      some (balance (·.weight.actual)
        (network.due (history ++ [network.reportOf time]) history.length target neuron)) := by
  have received : (network.delivered time).neuronGroups[target]? =
      some (group.addInputs (deliveriesTo target (network.emit time).transmissions)) := by
    have receives := getElem?_receive network.neuronGroups (network.emit time).transmissions
      target
    rwa [found] at receives
  have noInput : group.input[neuron]? = some 0 := by
    rw [show group.input = _ from atRest.inputs group (List.mem_of_getElem? found)]
    simp [inside]
  rw [consumed, received, Option.bind_some, NeuronGroup.addInputs, Delivery.getElem?_addAll,
    noInput, carries.deliveriesTo_eq sound, due_eq, List.filter_map, balance_map,
    List.filter_map, balance_map, balance_map, Option.map_some, Int.zero_add]
  rfl

/-- The transmissions of a step are those due to all neurons of all targets. -/
theorem length_allTransmitting
    (sound : network.layout.Sound)
    (history : List StepReport)
    (step : Nat) :
    (network.allTransmitting history step).length =
      tally (fun target =>
        tally (fun neuron => (network.due history step target neuron).length)
          (List.range (network.groupSize target)))
        (List.range network.neuronGroups.length) := by
  have inside : ∀ entry ∈ network.allTransmitting history step,
      entry.1 < network.neuronGroups.length ∧
        entry.2.post < network.groupSize entry.1 := by
    intro entry member
    obtain ⟨group, memberGroup, fromGroup⟩ := List.mem_flatMap.mp member
    obtain ⟨synapse, transmits, rfl⟩ := List.mem_map.mp fromGroup
    obtain ⟨spike, _, memberSynapse⟩ := List.mem_flatMap.mp transmits
    obtain ⟨exists_, below⟩ := sound.post_lt_groupSize memberGroup
    exact ⟨exists_, below synapse (List.mem_filter.mp memberSynapse).1⟩
  rw [← tally_length_filter fun entry member => (inside entry member).1]
  apply tally_congr
  intro target _
  have ofTarget : ∀ entry ∈ (network.allTransmitting history step).filter
      (fun entry => decide (entry.1 = target)), entry.2.post < network.groupSize target := by
    intro entry member
    obtain ⟨memberAll, same⟩ := List.mem_filter.mp member
    have below := (inside entry memberAll).2
    rwa [of_decide_eq_true same] at below
  rw [← tally_length_filter ofTarget]
  apply tally_congr
  intro neuron _
  rw [due_eq, List.length_map]

/-- After a step the spikes on their way to a group are those sent within its delay. -/
theorem Carries.pending_eq
    (carries : Carries history network)
    {group : SynapseGroup}
    (member : group ∈ network.synapseGroups)
    {step : Nat}
    (last : history.length = step + 1) :
    group.inFlight.pending = sentLately history group step := by
  rw [DelayLine.pending_eq_tally_upcoming, carries.upcoming group member, tally_append,
    tally_map, tally_cons, tally_nil, List.length_nil, ← tally_range_reflect, sentLately]
  apply tally_congr
  intro ago within
  have within := List.mem_range.mp within
  rw [arrivalsAt]
  by_cases early : ago ≤ step
  · have distance : history.length + (group.params.delay - 1 - ago) - group.params.delay =
        step - ago := by omega
    rw [if_pos early, if_pos (by omega), distance]
  · rw [if_neg early, if_neg (by omega), List.length_nil]

/-- A configured network has no spikes on their way. -/
theorem carries_of_configure
    {processors : Nat}
    {params : NetworkParams}
    (accepted : configure processors params = .ok network) :
    Carries [] network := by
  obtain ⟨_, _, built⟩ := configure_eq_ok_iff.mp accepted
  obtain ⟨_, _, _, neurons, _, synapses, rfl⟩ := ofParams_eq_ok_iff.mp built
  constructor
  · intro index
    rw [lastSpikes]
    split
    · rename_i group found
      obtain ⟨entry, _, created⟩ :=
        exists_of_mem_forall₂ neurons (List.mem_of_getElem? found)
      obtain ⟨_, rfl⟩ := NeuronGroup.create_eq_ok_iff.mp created
      rfl
    · rfl
  · intro group member
    obtain ⟨entry, _, created⟩ := exists_of_mem_forall₂ synapses member
    obtain ⟨_, _, rule, _, rfl⟩ := SynapseGroup.create_eq_ok_iff.mp created
    have nothing : ∀ step, arrivalsAt [] (.atRest entry.1 rule (params.synapseGenerator entry.2))
        step = [] := by
      intro step
      unfold arrivalsAt sentAt
      split
      · split <;> rfl
      · rfl
    simp only [nothing]
    show (DelayLine.empty _).upcoming = _
    rw [DelayLine.upcoming_empty, List.map_const', List.length_range,
      ← List.replicate_append_replicate]
    rfl

/-- Without restored snapshots, the spikes on their way are those of the reports so far. -/
theorem carries_performAll
    {processors : Nat}
    {params : NetworkParams}
    (accepted : configure processors params = .ok network)
    {calls : List Call}
    (unrestored : ∀ snapshot, Call.restore snapshot ∉ calls) :
    Carries (network.performAll calls).1 (network.performAll calls).2 := by
  have sound := sound_of_configure accepted
  suffices invariant : (network.performAll calls).2.layout = network.layout ∧
      (network.performAll calls).2.AtRest ∧
      Carries ([] ++ (network.performAll calls).1) (network.performAll calls).2 from
    invariant.2.2
  refine performAll_induction
    (fun history after =>
      after.layout = network.layout ∧ after.AtRest ∧ Carries history after)
    ?_ ?_ (fun snapshot member => absurd member (unrestored snapshot)) []
    ⟨rfl, atRest_of_configure accepted, carries_of_configure accepted⟩
  · rintro history before time ⟨same, atRest, carries⟩
    rw [← same] at sound
    exact ⟨(atRest.layout_next time).trans same, atRest.next time,
      carries.next sound time⟩
  · rintro history before group mantissas after ⟨same, atRest, carries⟩ set
    exact ⟨(layout_setWeights set).trans same, atRest.setWeights set, carries.setWeights set⟩

/-- Without restored snapshots, however a network has been stepped and its weights been set, the
next step delivers to every neuron exactly the weights of the synapses that are due according to
the reports, counts exactly these transmissions, and leaves on their way exactly the spikes that
were sent within the delay. -/
theorem step_delivers_what_is_due
    {processors : Nat}
    {params : NetworkParams}
    {start : Network}
    (accepted : configure processors params = .ok start)
    {calls : List Call}
    (unrestored : ∀ snapshot, Call.restore snapshot ∉ calls)
    {reports : List StepReport}
    {network : Network}
    (reached : start.performAll calls = (reports, network))
    (time : Nat)
    {report : StepReport}
    {after : Network}
    (stepped : network.step time = (report, after)) :
    (∀ target group, network.neuronGroups[target]? = some group → ∀ neuron < group.size,
      network.consumed time target neuron =
        some (balance (·.weight.actual)
          (network.due (reports ++ [report]) reports.length target neuron))) ∧
    after.neuronGroups =
      (network.delivered time).neuronGroups.map (·.update network.rounding) ∧
    report.transmissions =
      tally (fun target =>
        tally (fun neuron =>
          (network.due (reports ++ [report]) reports.length target neuron).length)
          (List.range (network.groupSize target)))
        (List.range network.neuronGroups.length) ∧
    after.synapseGroups.length = network.synapseGroups.length ∧
    ∀ group ∈ after.synapseGroups,
      group.inFlight.pending = sentLately (reports ++ [report]) group reports.length := by
  have carries := carries_performAll accepted unrestored
  have reachable : Reachable processors params network :=
    ⟨start, calls, accepted, congrArg Prod.snd reached⟩
  have sound := reachable.sound
  have atRest := reachable.atRest
  rw [reached] at carries
  rw [step_eq] at stepped
  obtain ⟨rfl, rfl⟩ := Prod.mk.inj stepped
  refine ⟨fun target group found neuron inside =>
    carries.consumed_eq sound atRest time found inside, rfl, ?_, ?_, ?_⟩
  · rw [carries.transmissions_reportOf sound, length_allTransmitting sound]
  · exact List.length_map _
  · intro group member
    exact (carries.next sound time).pending_eq member (by simp)

/-- The spike of the source reaches the pair of neurons in the second step as it is due. -/
theorem step_delivers_what_is_due_pair :
    ∃ start network reports,
      configure 1 .pair = .ok start ∧
      start.performAll [.step 0, .setWeights 0 [300, 0]] = (reports, network) ∧
      (network.step 1).1.transmissions =
        tally (fun target =>
          tally (fun neuron =>
            (network.due (reports ++ [(network.step 1).1]) reports.length target neuron).length)
            (List.range (network.groupSize target)))
          (List.range network.neuronGroups.length) := by
  obtain ⟨start, accepted⟩ := exists_configure_pair
  have unrestored : ∀ snapshot,
      Call.restore snapshot ∉ [Call.step 0, .setWeights 0 [300, 0]] := by
    simp
  exact ⟨start, _, _, accepted, rfl,
    (step_delivers_what_is_due accepted unrestored rfl 1 rfl).2.2.1⟩

end Network

end Neurochip
