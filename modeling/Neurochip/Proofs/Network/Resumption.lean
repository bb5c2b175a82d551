import Neurochip.Proofs.Network.Acceptance
import Neurochip.Proofs.Network.Core

namespace Neurochip

/-!
# Going on from a snapshot

Between two steps, when no spike is on its way, a network is determined by its
layout and its snapshot, as far as its next steps are concerned.  Therefore a
network that was configured anew and has taken over the snapshot goes on in the
same way, if rounding draws nothing: the reports of all further steps are the
same, and so are the snapshots after them.
-/

/-- What respects the key of an item holds for the items of two lists with the same keys. -/
theorem forall_mem_zip_of_map_eq
    {key : α → γ}
    {holds : α → β → Prop}
    (respected : ∀ first second value,
      key first = key second → holds first value → holds second value)
    {firsts seconds : List α}
    (same : firsts.map key = seconds.map key)
    {values : List β}
    (before : ∀ item value, (item, value) ∈ firsts.zip values → holds item value) :
    ∀ item value, (item, value) ∈ seconds.zip values → holds item value := by
  intro item value member
  obtain ⟨position, place⟩ := List.mem_iff_getElem?.mp member
  obtain ⟨found, given⟩ := List.getElem?_zip_eq_some.mp place
  have here := congrArg (·[position]?) same
  simp only [List.getElem?_map, found] at here
  obtain ⟨other, foundOther, sameKey⟩ := Option.map_eq_some_iff.mp here
  have pair : (firsts.zip values)[position]? = some (other, value) :=
    List.getElem?_zip_eq_some.mpr ⟨foundOther, given⟩
  exact respected other item value sameKey (before other value (List.mem_of_getElem? pair))

theorem map_pair_eq_of_map_eq
    {left : α → β}
    {right : α → γ}
    {firsts seconds : List α}
    (sameLeft : firsts.map left = seconds.map left)
    (sameRight : firsts.map right = seconds.map right) :
    firsts.map (fun item => (left item, right item)) =
      seconds.map fun item => (left item, right item) := by
  rw [← List.zip_map', ← List.zip_map', sameLeft, sameRight]

theorem NeuronGroup.Accepts.of_frame
    {first second : NeuronGroup}
    {states : List NeuronState}
    (same : first.frame = second.frame)
    (accepts : first.Accepts states) :
    second.Accepts states :=
  ⟨(congrArg Prod.snd same).symm.trans accepts.length, accepts.inRange⟩

theorem SynapseGroup.Accepts.of_wiring
    {first second : SynapseGroup}
    {states : List SynapseState}
    (same : first.wiring = second.wiring)
    (accepts : first.Accepts states) :
    second.Accepts states := by
  refine ⟨(size_of_wiring same).symm.trans accepts.length, ?_⟩
  rw [← quantizer_of_wiring same]
  refine forall_mem_zip_of_map_eq ?_ (congrArg Wiring.ends same) accepts.canTake
  rintro synapse other state sameEnds ⟨⟨pre, post⟩, weight, traces⟩
  obtain ⟨samePre, samePost⟩ := Prod.mk.inj sameEnds
  exact ⟨⟨pre.trans samePre, post.trans samePost⟩, weight, traces⟩

/-- A synapse without a mark, in the given state. -/
def Synapse.ofState (state : SynapseState) : Synapse :=
  { pre := state.pre
    post := state.post
    weight := { mantissa := state.mantissa, actual := state.actual }
    traces := state.traces }

/-- Without marks the synapses of a group are those in its states. -/
theorem SynapseGroup.Settled.toList_eq
    {group : SynapseGroup}
    (settled : group.Settled) :
    group.synapses.toList = group.states.map Synapse.ofState := by
  have own : ∀ synapse ∈ group.synapses.toList, Synapse.ofState synapse.state = synapse := by
    intro synapse member
    obtain ⟨quiet, silent⟩ := settled.unmarked synapse (Array.mem_toList_iff.mp member)
    cases synapse
    simp_all [Synapse.ofState, Synapse.state]
  calc
    group.synapses.toList = group.synapses.toList.map id := (List.map_id _).symm
    _ = group.synapses.toList.map fun synapse => Synapse.ofState synapse.state :=
      List.map_congr_left fun synapse member => (own synapse member).symm
    _ = group.states.map Synapse.ofState := by
      rw [states, List.map_map]
      rfl

/-- Without input and spikes the core of a neuron group is a matter of its frame and states. -/
theorem NeuronGroup.core_eq_of_atRest
    {first second : NeuronGroup}
    (firstAtRest : first.AtRest)
    (secondAtRest : second.AtRest)
    (firstQuiet : first.lastSpikes = [])
    (secondQuiet : second.lastSpikes = [])
    (same : (first.frame, first.states) = (second.frame, second.states)) :
    first.core = second.core := by
  obtain ⟨frame, states⟩ := Prod.mk.inj same
  obtain ⟨params, size⟩ := Prod.mk.inj frame
  have input : first.input = second.input := by
    rw [show first.input = _ from firstAtRest, show second.input = _ from secondAtRest, size]
  rw [core, core, params, states, input, firstQuiet, secondQuiet]

/-- Without marks and spikes on their way the core of a synapse group is a matter of its wiring and
states. -/
theorem SynapseGroup.core_eq_of_settled
    {first second : SynapseGroup}
    (firstSettled : first.Settled)
    (secondSettled : second.Settled)
    (firstIdle : first.inFlight.pending = 0)
    (secondIdle : second.inFlight.pending = 0)
    (same : (first.wiring, first.states) = (second.wiring, second.states)) :
    first.core = second.core := by
  obtain ⟨wiring, states⟩ := Prod.mk.inj same
  have synapses : first.synapses = second.synapses := by
    rw [← Array.toList_inj, firstSettled.toList_eq, secondSettled.toList_eq, states]
  have reach : first.inFlight.length = second.inFlight.length := congrArg Wiring.reach wiring
  have upcoming : first.inFlight.upcoming = second.inFlight.upcoming := by
    rw [DelayLine.upcoming_of_pending_eq_zero firstIdle,
      DelayLine.upcoming_of_pending_eq_zero secondIdle, reach]
  rw [core, core, wiring, synapses, upcoming, firstSettled.touched, secondSettled.touched,
    firstSettled.pending, secondSettled.pending]

namespace Network

variable {first second network start resumed : Network} {snapshot : Snapshot}

/-- What a network accepts is a matter of its layout. -/
theorem Accepts.of_layout
    (same : first.layout = second.layout)
    (accepts : first.Accepts snapshot) :
    second.Accepts snapshot := by
  have neurons : first.neuronGroups.map (·.frame) = second.neuronGroups.map (·.frame) :=
    congrArg Layout.neurons same
  have wirings : first.synapseGroups.map (·.wiring) = second.synapseGroups.map (·.wiring) :=
    congrArg Layout.wirings same
  have neuronCount := congrArg List.length neurons
  have synapseCount := congrArg List.length wirings
  rw [List.length_map, List.length_map] at neuronCount synapseCount
  refine ⟨neuronCount.symm.trans accepts.neuronCount,
    synapseCount.symm.trans accepts.synapseCount, ?_, ?_⟩
  · refine forall_mem_zip_of_map_eq ?_ neurons accepts.neurons
    exact fun _ _ _ => NeuronGroup.Accepts.of_frame
  · refine forall_mem_zip_of_map_eq ?_ wirings accepts.synapses
    exact fun _ _ _ => SynapseGroup.Accepts.of_wiring

/-- No spike is on its way: all delay lines are empty, and no neuron has spiked in the last step. -/
structure NothingInFlight (network : Network) : Prop where
  lines : ∀ group ∈ network.synapseGroups, group.inFlight.pending = 0
  neurons : ∀ group ∈ network.neuronGroups, group.lastSpikes = []

instance (network : Network) : Decidable network.NothingInFlight :=
  decidable_of_iff
    ((∀ group ∈ network.synapseGroups, group.inFlight.pending = 0) ∧
      ∀ group ∈ network.neuronGroups, group.lastSpikes = [])
    ⟨fun ⟨lines, neurons⟩ => ⟨lines, neurons⟩, fun idle => ⟨idle.lines, idle.neurons⟩⟩

/-- A network at rest with nothing in flight is determined by its layout and its snapshot, as far as
its next steps are concerned. -/
theorem core_eq_of_nothingInFlight
    (firstAtRest : first.AtRest)
    (secondAtRest : second.AtRest)
    (firstIdle : first.NothingInFlight)
    (secondIdle : second.NothingInFlight)
    (sameLayout : first.layout = second.layout)
    (sameSnapshot : first.snapshot = second.snapshot) :
    first.core = second.core := by
  have neurons : first.neuronGroups.map (·.core) = second.neuronGroups.map (·.core) := by
    refine map_eq_of_map_eq (fun group member other memberOther same => ?_)
      (map_pair_eq_of_map_eq (congrArg Layout.neurons sameLayout)
        (congrArg Snapshot.neuronGroups sameSnapshot))
    exact NeuronGroup.core_eq_of_atRest (firstAtRest.inputs group member)
      (secondAtRest.inputs other memberOther) (firstIdle.neurons group member)
      (secondIdle.neurons other memberOther) same
  have synapses : first.synapseGroups.map (·.core) = second.synapseGroups.map (·.core) := by
    refine map_eq_of_map_eq (fun group member other memberOther same => ?_)
      (map_pair_eq_of_map_eq (congrArg Layout.wirings sameLayout)
        (congrArg Snapshot.synapseGroups sameSnapshot))
    exact SynapseGroup.core_eq_of_settled (firstAtRest.settled group member)
      (secondAtRest.settled other memberOther) (firstIdle.lines group member)
      (secondIdle.lines other memberOther) same
  have sources : first.spikeSources.map (·.quiet) = second.spikeSources.map (·.quiet) :=
    congrArg Layout.sources sameLayout
  have rounding : first.rounding = second.rounding := congrArg Layout.rounding sameLayout
  rw [core, core, neurons, synapses, sources, rounding]

/-- What can be seen of steps at the given times: each report, and the snapshot after the step. -/
def observe (network : Network) : List Nat → List (StepReport × Snapshot)
  | [] => []
  | time :: rest =>
      let (report, after) := network.step time
      (report, after.snapshot) :: after.observe rest

theorem snapshot_of_core_eq (same : first.core = second.core) :
    first.snapshot = second.snapshot := by
  have neurons : first.neuronGroups.map (·.states) = second.neuronGroups.map (·.states) :=
    map_eq_of_map_eq (fun _ _ _ _ same => congrArg NeuronGroup.Core.states same)
      (congrArg Core.neuronGroups same)
  have synapses : first.synapseGroups.map (·.states) = second.synapseGroups.map (·.states) :=
    map_eq_of_map_eq (fun _ _ _ _ same => congrArg (·.synapses.toList.map Synapse.state) same)
      (congrArg Core.synapseGroups same)
  rw [Network.snapshot, Network.snapshot, neurons, synapses]

/-- The same can be seen of networks with the same core. -/
theorem observe_of_core_eq
    (deterministic : first.rounding ≠ .stochastic)
    (within : first.WithinReach)
    (same : first.core = second.core)
    (times : List Nat) :
    first.observe times = second.observe times := by
  induction times generalizing first second with
  | nil => rfl
  | cons time rest inductionHypothesis =>
      have next := core_next_of_core_eq deterministic within same time
      have later : (first.next time).observe rest = (second.next time).observe rest :=
        inductionHypothesis deterministic (within.next time) next
      rw [observe, observe, step_eq, step_eq]
      simp only [reportOf_of_core_eq deterministic within same, snapshot_of_core_eq next, later]

theorem Layout.Sound.withinReach (sound : network.layout.Sound) : network.WithinReach := by
  intro group member
  have reach := sound.reach group.wiring (List.mem_map_of_mem member)
  simp only [SynapseGroup.wiring] at reach
  omega

/-- The delay lines of a configured network are empty. -/
theorem nothingInFlight_of_configure
    {processors : Nat}
    {params : NetworkParams}
    (accepted : configure processors params = .ok start) :
    ∀ group ∈ start.synapseGroups, group.inFlight.pending = 0 := by
  obtain ⟨_, _, built⟩ := configure_eq_ok_iff.mp accepted
  obtain ⟨_, _, _, _, _, synapses, rfl⟩ := ofParams_eq_ok_iff.mp built
  intro group member
  obtain ⟨entry, _, created⟩ := exists_of_mem_forall₂ synapses member
  obtain ⟨_, _, rule, _, rfl⟩ := SynapseGroup.create_eq_ok_iff.mp created
  rw [DelayLine.pending_eq_tally_upcoming, SynapseGroup.atRest, DelayLine.upcoming_empty,
    tally_eq_zero_iff]
  intro batch memberBatch
  rw [List.eq_of_mem_replicate memberBatch, List.length_nil]

/-- Restoring forgets the last spikes of neurons, and leaves the delay lines as they are. -/
theorem nothingInFlight_restore
    (empty : ∀ group ∈ start.synapseGroups, group.inFlight.pending = 0)
    (restored : start.restore snapshot = .ok resumed) :
    resumed.NothingInFlight := by
  obtain ⟨accepts, rfl⟩ := restore_eq_ok_iff_accepts.mp restored
  constructor
  · intro group member
    obtain ⟨⟨before, states⟩, memberPair, rfl⟩ := List.mem_map.mp member
    exact empty before (List.of_mem_zip memberPair).1
  · intro group member
    obtain ⟨⟨before, states⟩, memberPair, rfl⟩ := List.mem_map.mp member
    rfl

/-- Where rounding draws nothing, a network with nothing in flight goes on from its snapshot in the
same way as by itself. -/
theorem observe_resumed
    {processors : Nat}
    {params : NetworkParams}
    (accepted : configure processors params = .ok start)
    (deterministic :
      params.technical.rounding = .awayFromZero ∨ params.technical.rounding = .towardZero)
    (calls : List Call)
    (idle : (start.performAll calls).2.NothingInFlight) :
    ∃ resumed, start.restore (start.performAll calls).2.snapshot = .ok resumed ∧
      ∀ times, (start.performAll calls).2.observe times = resumed.observe times := by
  have rounding := rounding_ne_stochastic_of_configure accepted deterministic
  have sane := sane_of_configure accepted
  have reached := sane.performAll calls
  -- From here on only the layout ties the network to the one that was configured.
  have sameLayout := (layout_performAll accepted calls).1
  generalize (start.performAll calls).2 = network at *
  have accepts := reached.inRange.accepts_snapshot.of_layout sameLayout
  have restored := restore_eq_ok_iff_accepts.mpr ⟨accepts, rfl⟩
  have takesOver := accepts.takesOver
  refine ⟨_, restored, observe_of_core_eq ?_ reached.sound.withinReach ?_⟩
  · rw [show network.rounding = start.rounding from congrArg Layout.rounding sameLayout]
    exact rounding
  · exact core_eq_of_nothingInFlight reached.atRest (sane.atRest.restore restored) idle
      (nothingInFlight_restore (nothingInFlight_of_configure accepted) restored)
      (sameLayout.trans takesOver.layout.symm) takesOver.snapshot.symm

/-- The pair of neurons, which rounds toward zero. -/
def pairTowardZero : NetworkParams :=
  { NetworkParams.pair with technical := { rounding := .towardZero } }

/-- The pair of neurons between two spikes, with current, voltage and traces. -/
def restless : Snapshot :=
  { neuronGroups :=
      [[{ voltage := 180, current := 60 }, { voltage := -90, current := 25, refractory := 3 }]]
    synapseGroups :=
      [[{ pre := 0, post := 0, mantissa := 100, actual := 6400, traces := ⟨30, 0, 12, 0, 0⟩ },
          { pre := 0, post := 1, mantissa := 20, actual := 1280, traces := ⟨7, 0, 40, 0, 0⟩ }],
        [{ pre := 0, post := 1, mantissa := 50, actual := 3200, traces := ⟨0, 0, 0, 0, 0⟩ }]] }

/-- The pair of neurons goes on from the snapshot of the middle of its activity, two steps after it
has taken over states that are not those it starts with. -/
theorem observe_resumed_pair :
    ∃ start, configure 1 pairTowardZero = .ok start ∧
      (start.performAll [.restore restless, .step 5, .step 6]).2.NothingInFlight ∧
      (start.performAll [.restore restless, .step 5, .step 6]).2.snapshot ≠ start.snapshot ∧
      (start.performAll [.restore restless, .step 5, .step 6]).2.snapshot ≠ restless ∧
      ∃ resumed,
        start.restore (start.performAll [.restore restless, .step 5, .step 6]).2.snapshot =
          .ok resumed ∧
        ∀ times, (start.performAll [.restore restless, .step 5, .step 6]).2.observe times =
          resumed.observe times := by
  have run : ∃ start, configure 1 pairTowardZero = .ok start ∧
      (start.performAll [.restore restless, .step 5, .step 6]).2.NothingInFlight ∧
      (start.performAll [.restore restless, .step 5, .step 6]).2.snapshot ≠ start.snapshot ∧
      (start.performAll [.restore restless, .step 5, .step 6]).2.snapshot ≠ restless := by
    decide +kernel
  obtain ⟨start, accepted, idle, moved, stepped⟩ := run
  exact ⟨start, accepted, idle, moved, stepped, observe_resumed accepted (.inr rfl) _ idle⟩

end Network

end Neurochip
