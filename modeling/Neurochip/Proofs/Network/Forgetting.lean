import Neurochip.Proofs.Network.Delivery
import Neurochip.Proofs.Network.Hearing
import Neurochip.Proofs.Network.Resumption
import Neurochip.Proofs.SynapseGroup.Awaited

namespace Neurochip

/-!
# What restoring its own snapshot does to a network

Restoring a snapshot leaves the spikes in delay lines there, but clears the
spikes of the last update, which would set out in the next step.  The main
statement says that nothing else is changed, that nobody can tell the difference
if the cleared spikes have no synapse to go through, and that otherwise the loss
shows in the steps within one delay.
-/

namespace Network

/-- The network whose neurons have forgotten their last spikes. -/
def forgetful (network : Network) : Network :=
  { network with neuronGroups := network.neuronGroups.map (·.forgetful) }

/-- Whether a neuron has spiked in the last update that has a synapse in the group. -/
def HasSpikesFor (network : Network) (group : SynapseGroup) : Prop :=
  ∃ index, group.source = .neuronGroup index ∧
    ∃ synapse ∈ group.synapses, synapse.pre ∈ network.lastSpikes group.source

/-- The positions that a group awaits in a step, those of the spikes that set out in it included. -/
def awaitedAt (network : Network) (time : Nat) (group : SynapseGroup) (ahead : Nat) : List Nat :=
  group.awaitedWith ((network.emit time).lastSpikes group.source) ahead

variable {first second network : Network}

/-- What is sent in a step waits behind what is awaited already. -/
theorem awaitedAt_of_wiring
    {group other : SynapseGroup}
    (same : other.wiring = group.wiring)
    (time ahead : Nat) :
    network.awaitedAt time other ahead =
      other.awaited ahead ++
        if ahead = group.params.delay then
          group.positionsFrom ((network.emit time).lastSpikes group.source)
        else
          [] := by
  have source : other.source = group.source := congrArg SynapseGroup.Wiring.source same
  have params : other.params = group.params := congrArg SynapseGroup.Wiring.params same
  rw [awaitedAt, SynapseGroup.awaitedWith, source, params,
    SynapseGroup.positionsFrom_of_wiring same]

/-- What a group awaits after a step is what it awaited before, one step earlier, and what the next
step sends. -/
theorem awaitedAt_next
    {group : SynapseGroup}
    (within : group.params.delay < group.inFlight.length)
    (time later ahead : Nat) :
    (network.next time).awaitedAt later (network.steppedGroup time group).2 ahead =
      network.awaitedAt time group (ahead + 1) ++
        if ahead = group.params.delay then
          group.positionsFrom (((network.next time).emit later).lastSpikes group.source)
        else
          [] := by
  rw [awaitedAt_of_wiring (wiring_steppedGroup network time group), steppedGroup,
    SynapseGroup.awaited_stepped within]
  rfl

theorem withinReach_steppedGroup
    {group : SynapseGroup}
    (within : group.params.delay < group.inFlight.length)
    (time : Nat) :
    (network.steppedGroup time group).2.params.delay <
      (network.steppedGroup time group).2.inFlight.length :=
  SynapseGroup.withinReach_of_wiring (wiring_steppedGroup network time group) within

/-! ## Where nothing is lost -/

/-- With another delay line a group awaits the same. -/
structure AwaitsSame
    (first second : Network)
    (group : SynapseGroup)
    (line : DelayLine Nat) :
    Prop where
  within : group.params.delay < group.inFlight.length
  withinLine : group.params.delay < line.length
  awaited : ∀ time ahead,
    second.awaitedAt time (group.withLine line) ahead = first.awaitedAt time group ahead

/-- Networks in the same states, whose synapses await the same. -/
structure Alike (first second : Network) : Prop where
  neurons : second.neuronGroups.map (·.forgetful) = first.neuronGroups.map (·.forgetful)
  sources : second.spikeSources = first.spikeSources
  rounding : second.rounding = first.rounding
  synapses : List.Forall₂
    (fun group changed => ∃ line,
      changed = group.withLine line ∧ AwaitsSame first second group line)
    first.synapseGroups second.synapseGroups

/-- The synapses that are awaited now are reached. -/
theorem AwaitsSame.heardAlike
    {group : SynapseGroup}
    {line : DelayLine Nat}
    (awaits : AwaitsSame first second group line)
    (time : Nat) :
    HeardAlike first second time group (group.withLine line) := by
  refine ⟨line, rfl, ?_⟩
  have withinLine : (group.withLine line).params.delay < (group.withLine line).inFlight.length :=
    awaits.withinLine
  have arrives := SynapseGroup.positionsFrom_arriving awaits.within
    ((first.emit time).lastSpikes group.source)
  have arrivesOther := SynapseGroup.positionsFrom_arriving withinLine
    ((second.emit time).lastSpikes group.source)
  have positions := arrivesOther.trans ((awaits.awaited time 0).trans arrives.symm)
  exact congrArg (List.filter (group.reaches (first.groupSize group.target))) positions

namespace Alike

theorem stepAlike (alike : Alike first second) (time : Nat) : StepAlike first second time := by
  refine ⟨alike.neurons, alike.rounding, alike.synapses.imp ?_⟩
  rintro group changed ⟨line, rfl, awaits⟩
  exact awaits.heardAlike time

/-- Networks that are alike are alike after a step. -/
theorem next (alike : Alike first second) (time : Nat) :
    Alike (first.next time) (second.next time) := by
  have stepAlike := alike.stepAlike time
  have neurons := stepAlike.neurons_next
  have sources : (second.next time).spikeSources = (first.next time).spikeSources :=
    spikeSources_emit (congrArg _ alike.sources) time
  have sent : ∀ later source, ((second.next time).emit later).lastSpikes source =
      ((first.next time).emit later).lastSpikes source := fun later =>
    lastSpikes_congr (congrArg _ neurons) (spikeSources_emit (congrArg _ sources) later)
  refine ⟨congrArg _ neurons, sources, alike.rounding, ?_⟩
  refine List.forall₂_map_left_iff.mpr (List.forall₂_map_right_iff.mpr (alike.synapses.imp ?_))
  rintro group changed ⟨line, rfl, awaits⟩
  have after := (Prod.ext_iff.mp (stepAlike.steppedGroup_eq (awaits.heardAlike time))).2
  have params := congrArg SynapseGroup.params after
  have withinLine := @withinReach_steppedGroup second (group.withLine line) awaits.withinLine time
  refine ⟨_, after, withinReach_steppedGroup awaits.within time, ?_, fun later ahead => ?_⟩
  · rw [params] at withinLine
    exact withinLine
  · refine (congrArg ((second.next time).awaitedAt later · ahead) after.symm).trans ?_
    rw [awaitedAt_next awaits.withinLine, awaitedAt_next awaits.within, awaits.awaited, sent]
    rfl

/-- Networks that are alike have the same snapshot. -/
theorem snapshot_eq (alike : Alike first second) : second.snapshot = first.snapshot := by
  have neurons : second.neuronGroups.map (·.states) = first.neuronGroups.map (·.states) :=
    map_eq_of_map_eq (fun _ _ _ _ same => congrArg (·.states) same) alike.neurons
  have synapses : second.synapseGroups.map (·.states) = first.synapseGroups.map (·.states) :=
    map_eq_of_forall₂ alike.synapses fun group changed ⟨line, same, _⟩ => by
      rw [same]
      rfl
  rw [snapshot, snapshot, neurons, synapses]

/-- The same can be seen of networks that are alike. -/
theorem observe_eq (alike : Alike first second) (times : List Nat) :
    second.observe times = first.observe times := by
  induction times generalizing first second with
  | nil => rfl
  | cons time rest inductionHypothesis =>
      have emitted : (second.emit time).spikeSources.map (·.lastSpikes) =
          (first.emit time).spikeSources.map (·.lastSpikes) :=
        congrArg (fun sources : List SpikeSource => (sources.map (·.emit time)).map (·.lastSpikes))
          alike.sources
      have report := (alike.stepAlike time).reportOf_eq emitted
      have after := alike.next time
      rw [observe, observe, step_eq, step_eq]
      simp only [report, after.snapshot_eq, inductionHypothesis after]

end Alike

/-! ## Where something is lost -/

/-- A step transmits to all positions that are awaited now. -/
theorem transmissions_reportOf (sound : network.layout.Sound) (time : Nat) :
    (network.reportOf time).transmissions =
      tally (fun group => (network.awaitedAt time group 0).length) network.synapseGroups := by
  have counted : (network.reportOf time).transmissions =
      tally (fun group => (group.transmit (network.stimulus time group).spikes
        (network.stimulus time group).targets).1.length) network.synapseGroups :=
    tally_map _ _ _
  rw [counted]
  refine tally_congr fun group member => ?_
  exact SynapseGroup.length_transmit (sound.indexed.of_mem member) (sound.withinReach group member)
    (sound.post_lt_groupSize member).2 _

/-- The second network never awaits more than the first, and less in some steps. -/
structure Lacks (ahead : Nat) (first second : Network) : Prop where
  sources : second.spikeSources = first.spikeSources
  wirings : second.synapseGroups.map (·.wiring) = first.synapseGroups.map (·.wiring)
  less : ∀ pair ∈ first.synapseGroups.zip second.synapseGroups, ∀ time later,
    (second.awaitedAt time pair.2 later).length ≤ (first.awaitedAt time pair.1 later).length
  lost : ∃ pair ∈ first.synapseGroups.zip second.synapseGroups, ∀ time,
    (second.awaitedAt time pair.2 ahead).length < (first.awaitedAt time pair.1 ahead).length

namespace Lacks

variable {ahead : Nat}

theorem length_eq (lacks : Lacks ahead first second) :
    second.synapseGroups.length = first.synapseGroups.length := by
  simpa using congrArg List.length lacks.wirings

theorem wiring_eq
    (lacks : Lacks ahead first second)
    {pair : SynapseGroup × SynapseGroup}
    (member : pair ∈ first.synapseGroups.zip second.synapseGroups) :
    pair.2.wiring = pair.1.wiring := by
  obtain ⟨position, place⟩ := List.mem_iff_getElem?.mp member
  obtain ⟨found, foundSecond⟩ := List.getElem?_zip_eq_some.mp place
  have here := congrArg (·[position]?) lacks.wirings
  simp only [List.getElem?_map, found, foundSecond, Option.map_some] at here
  exact Option.some.inj here

/-- Where less is awaited now, fewer transmissions are counted. -/
theorem transmissions_lt
    (lacks : Lacks 0 first second)
    (sound : first.layout.Sound)
    (soundSecond : second.layout.Sound)
    (time : Nat) :
    (second.reportOf time).transmissions < (first.reportOf time).transmissions := by
  obtain ⟨pair, member, fewer⟩ := lacks.lost
  have groups : (first.synapseGroups.zip second.synapseGroups).map Prod.fst =
      first.synapseGroups :=
    List.map_fst_zip lacks.length_eq.ge
  have groupsSecond : (first.synapseGroups.zip second.synapseGroups).map Prod.snd =
      second.synapseGroups :=
    List.map_snd_zip lacks.length_eq.le
  rw [transmissions_reportOf sound, transmissions_reportOf soundSecond, ← groups, tally_map]
  nth_rewrite 1 [← groupsSecond]
  rw [tally_map]
  exact tally_lt_tally (fun pair member => lacks.less pair member time 0) member (fewer time)

/-- As long as the reports are the same, what is lacking is due one step earlier after a step. -/
theorem next
    (lacks : Lacks (ahead + 1) first second)
    (within : first.WithinReach)
    (withinSecond : second.WithinReach)
    {time : Nat}
    (sameReport : second.reportOf time = first.reportOf time) :
    Lacks ahead (first.next time) (second.next time) := by
  have sources : (second.next time).spikeSources = (first.next time).spikeSources :=
    spikeSources_emit (congrArg _ lacks.sources) time
  have sent : ∀ later source, ((second.next time).emit later).lastSpikes source =
      ((first.next time).emit later).lastSpikes source := by
    intro later source
    cases source with
    | neuronGroup group =>
        have fired := indicesFor_neuronGroup second time group
        rw [sameReport, indicesFor_neuronGroup] at fired
        exact fired.symm
    | spikeSource source =>
        rw [lastSpikes, lastSpikes, spikeSources_emit (congrArg _ sources) later]
  have groups : (first.next time).synapseGroups.zip (second.next time).synapseGroups =
      (first.synapseGroups.zip second.synapseGroups).map
        (Prod.map (fun group => (first.steppedGroup time group).2)
          fun group => (second.steppedGroup time group).2) :=
    List.zip_map
  -- What the next step sends adds the same to both.
  have awaited : ∀ pair ∈ first.synapseGroups.zip second.synapseGroups, ∀ later ahead,
      ∃ added,
        (first.next time).awaitedAt later (first.steppedGroup time pair.1).2 ahead =
          first.awaitedAt time pair.1 (ahead + 1) ++ added ∧
        (second.next time).awaitedAt later (second.steppedGroup time pair.2).2 ahead =
          second.awaitedAt time pair.2 (ahead + 1) ++ added := by
    intro pair member later ahead
    obtain ⟨here, there⟩ := List.of_mem_zip member
    have wiring := lacks.wiring_eq member
    have source : pair.2.source = pair.1.source := congrArg SynapseGroup.Wiring.source wiring
    have params : pair.2.params = pair.1.params := congrArg SynapseGroup.Wiring.params wiring
    refine ⟨_, awaitedAt_next (within pair.1 here) time later ahead, ?_⟩
    rw [awaitedAt_next (withinSecond pair.2 there), source, params, sent,
      SynapseGroup.positionsFrom_of_wiring wiring]
  refine ⟨sources, ?_, ?_, ?_⟩
  · simpa only [Network.next, List.map_map, Function.comp_def, wiring_steppedGroup] using
      lacks.wirings
  · rw [groups]
    intro result memberResult later distance
    obtain ⟨pair, member, rfl⟩ := List.mem_map.mp memberResult
    obtain ⟨added, one, other⟩ := awaited pair member later distance
    simp only [Prod.map, one, other, List.length_append]
    exact Nat.add_le_add_right (lacks.less pair member time (distance + 1)) _
  · obtain ⟨pair, member, fewer⟩ := lacks.lost
    rw [groups]
    refine ⟨_, List.mem_map_of_mem member, fun later => ?_⟩
    obtain ⟨added, one, other⟩ := awaited pair member later ahead
    simp only [Prod.map, one, other, List.length_append]
    exact Nat.add_lt_add_right (fewer time) _

/-- What is lacking shows when it is due. -/
theorem observe_ne
    (lacks : Lacks ahead first second)
    (sane : first.Sane)
    (saneSecond : second.Sane)
    {times : List Nat}
    (long : ahead < times.length) :
    second.observe times ≠ first.observe times := by
  induction ahead generalizing first second times with
  | zero =>
      cases times with
      | nil => cases long
      | cons time rest =>
          intro same
          rw [observe, observe, step_eq, step_eq] at same
          have sameReport := (Prod.ext_iff.mp (List.cons.inj same).1).1
          have fewer := lacks.transmissions_lt sane.sound saneSecond.sound time
          exact absurd (congrArg StepReport.transmissions sameReport) fewer.ne
  | succ ahead inductionHypothesis =>
      cases times with
      | nil => cases long
      | cons time rest =>
          intro same
          rw [observe, observe, step_eq, step_eq] at same
          obtain ⟨now, later⟩ := List.cons.inj same
          have after := lacks.next sane.sound.withinReach saneSecond.sound.withinReach
            (Prod.ext_iff.mp now).1
          exact inductionHypothesis after (sane.next time) (saneSecond.next time)
            (Nat.lt_of_succ_lt_succ long) later

end Lacks

/-! ## A restored network -/

theorem lastSpikes_forgetful (network : Network) (time : Nat) (source : SourceRef) :
    (network.forgetful.emit time).lastSpikes source =
      match source with
      | .neuronGroup _ => []
      | .spikeSource _ => (network.emit time).lastSpikes source := by
  cases source with
  | spikeSource index => rfl
  | neuronGroup index =>
      show lastSpikes network.forgetful (.neuronGroup index) = []
      rw [lastSpikes, forgetful, List.getElem?_map]
      cases network.neuronGroups[index]? <;> rfl

/-- A network takes back its own snapshot, and only forgets the last spikes of its neurons. -/
theorem Sane.restore_own (sane : network.Sane) :
    network.restore network.snapshot = .ok network.forgetful := by
  have neurons : Restored NeuronGroup.restore network.neuronGroups
      (network.neuronGroups.map (·.states)) (network.neuronGroups.map (·.forgetful)) := by
    refine restored_of_own fun group member => ?_
    have input : group.input = Array.replicate group.input.size 0 := by
      have atRest : group.input = Array.replicate group.size 0 := sane.atRest.inputs group member
      rw [atRest, Array.size_replicate]
    rw [(sane.inRange.neurons group member).restore_states, NeuronGroup.withStates, ← input,
      NeuronGroup.forgetful]
  have synapses : Restored SynapseGroup.restore network.synapseGroups
      (network.synapseGroups.map (·.states)) (network.synapseGroups.map id) :=
    restored_of_own fun group member => (sane.inRange.synapses group member).restore_states
  rw [List.map_id] at synapses
  exact restore_eq_ok_iff.mpr ⟨by simp [snapshot], by simp [snapshot], _, _, neurons, synapses, rfl⟩

/-- Spikes without synapses to go through are not missed. -/
theorem Sane.alike_forgetful
    (sane : network.Sane)
    (nothing : ∀ group ∈ network.synapseGroups, ¬ network.HasSpikesFor group) :
    Alike network network.forgetful := by
  refine ⟨by simp [forgetful, NeuronGroup.forgetful], rfl, rfl,
    List.forall₂_same.mpr fun group member => ?_⟩
  have within := sane.sound.withinReach group member
  refine ⟨group.inFlight, rfl, within, within, fun time ahead => ?_⟩
  show group.awaitedWith ((network.forgetful.emit time).lastSpikes group.source) ahead =
    group.awaitedWith ((network.emit time).lastSpikes group.source) ahead
  rw [lastSpikes_forgetful]
  cases read : group.source with
  | spikeSource index => rfl
  | neuronGroup index =>
      have silent : group.positionsFrom ((network.emit time).lastSpikes (.neuronGroup index)) =
          [] := by
        refine (SynapseGroup.positionsFrom_eq_nil_iff (sane.sound.indexed.of_mem member)).mpr ?_
        intro synapse memberSynapse spikes
        exact nothing group member ⟨index, read, synapse, memberSynapse, read ▸ spikes⟩
      rw [SynapseGroup.awaitedWith, SynapseGroup.awaitedWith, silent]
      rfl

/-- Spikes with synapses to go through are missed one delay later. -/
theorem Sane.lacks_forgetful
    (sane : network.Sane)
    {group : SynapseGroup}
    (member : group ∈ network.synapseGroups)
    (has : network.HasSpikesFor group) :
    Lacks group.params.delay network network.forgetful := by
  have pairs : network.synapseGroups.zip network.forgetful.synapseGroups =
      network.synapseGroups.map fun group => (group, group) := by
    rw [← List.zip_map', List.map_id']
    rfl
  refine ⟨rfl, rfl, ?_, ?_⟩
  · rw [pairs]
    intro pair memberPair time later
    obtain ⟨other, _, rfl⟩ := List.mem_map.mp memberPair
    rw [awaitedAt, awaitedAt, lastSpikes_forgetful]
    cases other.source with
    | spikeSource index => rfl
    | neuronGroup index =>
        rw [SynapseGroup.awaitedWith, SynapseGroup.awaitedWith, List.length_append,
          List.length_append]
        refine Nat.add_le_add_left ?_ _
        split
        · exact Nat.zero_le _
        · rfl
  · rw [pairs]
    refine ⟨_, List.mem_map_of_mem member, fun time => ?_⟩
    obtain ⟨index, read, synapse, memberSynapse, spikes⟩ := has
    have heard : group.positionsFrom ((network.emit time).lastSpikes group.source) ≠ [] := by
      intro silent
      have nothing :=
        (SynapseGroup.positionsFrom_eq_nil_iff (sane.sound.indexed.of_mem member)).mp silent
      rw [read] at spikes nothing
      exact nothing synapse memberSynapse spikes
    rw [awaitedAt, awaitedAt, lastSpikes_forgetful]
    simp only [read] at heard ⊢
    rw [SynapseGroup.awaitedWith, SynapseGroup.awaitedWith, if_pos rfl, if_pos rfl,
      List.length_append, List.length_append]
    exact Nat.add_lt_add_left (List.length_pos_iff.mpr heard) _

/-- Wherever calls have led, a network that takes back its own snapshot forgets the last spikes of
its neurons and nothing else.  If no synapse group has a synapse for one of these spikes, nothing of
this can be seen in any steps.  Otherwise it can be seen in all steps that last longer than the
delay of such a group. -/
theorem own_snapshot_loses_last_spikes
    {processors : Nat}
    {params : NetworkParams}
    (reachable : Reachable processors params network) :
    network.restore network.snapshot = .ok network.forgetful ∧
    ((∀ group ∈ network.synapseGroups, ¬ network.HasSpikesFor group) →
      ∀ times, network.forgetful.observe times = network.observe times) ∧
    ∀ group ∈ network.synapseGroups, network.HasSpikesFor group →
      ∀ times : List Nat, group.params.delay < times.length →
        network.forgetful.observe times ≠ network.observe times := by
  have sane := reachable.sane
  have restored := sane.restore_own
  refine ⟨restored, fun nothing => (sane.alike_forgetful nothing).observe_eq, ?_⟩
  intro group member has times long
  exact (sane.lacks_forgetful member has).observe_ne sane (sane.of_restore restored) long

end Network

/-- Two neurons that spike in every step, one of which excites the other. -/
def NetworkParams.restless : NetworkParams :=
  { neuronGroups := [{ size := 2, neuron := { thresholdMantissa := 0 } }]
    synapseGroups :=
      [{ source := .neuronGroup 0
         target := 0
         connections := [{ pre := 0, post := 1, weight := 1 }] }] }

namespace Network

/-- After their first step the restless neurons have spikes for their synapse. -/
theorem exists_restless :
    ∃ network, Reachable 1 .restless network ∧ network.nextTime = 1 ∧
      ∃ group ∈ network.synapseGroups, group.params.delay = 0 ∧ network.HasSpikesFor group := by
  obtain ⟨start, accepted⟩ := @exists_configure 1 .restless rfl (by decide +kernel) (by
    intro group member
    obtain rfl := List.mem_singleton.mp member
    exact ⟨none, by decide +kernel⟩)
  obtain rfl := eq_initial_of_configure accepted
  have stepped : ((initial .restless).performAll [.step 0]).2 = (initial .restless).next 0 := by
    rw [performAll, perform, step_eq]
    rfl
  obtain ⟨group, member, source, delay, ends⟩ : ∃ group ∈ (initial .restless).synapseGroups,
      group.source = .neuronGroup 0 ∧ group.params.delay = 0 ∧ group.wiring.ends = [(0, 1)] :=
    ⟨_, List.mem_singleton_self _, rfl, rfl, rfl⟩
  have wiring := wiring_steppedGroup (initial .restless) 0 group
  have sameSource := congrArg SynapseGroup.Wiring.source wiring
  have sameParams := congrArg SynapseGroup.Wiring.params wiring
  have sameEnds := congrArg SynapseGroup.Wiring.ends wiring
  have connects : (0, 1) ∈ ((initial .restless).steppedGroup 0 group).2.wiring.ends := by
    rw [sameEnds, ends]
    exact List.mem_singleton_self _
  obtain ⟨synapse, memberSynapse, starts⟩ := List.mem_map.mp connects
  refine ⟨_, ⟨_, [.step 0], accepted, stepped⟩, rfl, _, List.mem_map_of_mem member,
    (congrArg SynapseParams.delay sameParams).trans delay,
    0, sameSource.trans source, synapse, Array.mem_toList_iff.mp memberSynapse, ?_⟩
  have spikes : ((initial .restless).next 0).lastSpikes (.neuronGroup 0) = [0, 1] := rfl
  rw [show synapse.pre = 0 from congrArg Prod.fst starts,
    show ((initial .restless).steppedGroup 0 group).2.source = .neuronGroup 0 from
      sameSource.trans source, spikes]
  exact List.mem_cons_self

/-- The restless neurons go on in another way after they have taken back their own snapshot. -/
theorem own_snapshot_loses_last_spikes_restless :
    ∃ network, Reachable 1 .restless network ∧
      ∃ group ∈ network.synapseGroups, network.HasSpikesFor group ∧
        group.params.delay < [1].length ∧
        network.restore network.snapshot = .ok network.forgetful ∧
        network.forgetful.observe [1] ≠ network.observe [1] := by
  obtain ⟨network, reachable, _, group, member, delay, has⟩ := exists_restless
  have long : group.params.delay < [1].length := by
    rw [delay]
    exact Nat.zero_lt_one
  obtain ⟨restored, _, seen⟩ := own_snapshot_loses_last_spikes reachable
  exact ⟨network, reachable, group, member, has, long, restored, seen group member has [1] long⟩

/-- It is not so that a network which takes back its own snapshot always goes on in the same way:
the restless neurons do not. -/
theorem own_snapshot_is_noticed :
    ¬ ∀ (processors : Nat) (params : NetworkParams) (network : Network),
      Reachable processors params network →
        ∃ after, network.restore network.snapshot = .ok after ∧
          ∀ times : List Nat, times.Pairwise (· < ·) →
            (∀ time ∈ times, network.nextTime ≤ time) →
            after.observe times = network.observe times := by
  intro unnoticed
  obtain ⟨network, reachable, nextTime, group, member, delay, has⟩ := exists_restless
  have sane := reachable.sane
  obtain ⟨after, restored, same⟩ := unnoticed _ _ network reachable
  obtain rfl := Except.ok.inj (restored.symm.trans sane.restore_own)
  have unseen := same [1] (List.pairwise_singleton _ _) (by simp [nextTime])
  exact (sane.lacks_forgetful member has).observe_ne sane (sane.of_restore restored)
    (by rw [delay]; exact Nat.zero_lt_one) unseen

end Network

end Neurochip
