import Neurochip.Proofs.Network.Restoring

namespace Neurochip

/-!
# All of a snapshot or nothing

A snapshot is checked part by part: first the numbers of groups, then the states
of each neuron group, then those of each synapse group.  The main statement says
which snapshots a network accepts, what it then shares with the network before,
that a refused snapshot changes nothing, and that the first part which is not
accepted decides between the two kinds of refusals.
-/

/-- Whether a refusal is about two lengths that differ. -/
def Refusal.IsLengths : Refusal → Prop
  | lengths _ _ _ => True
  | invalid _ => False
  | rule _ => False

theorem Refusal.eq_lengths_of_refused
    {compared : Compared}
    {left right : Nat}
    {refusal : Refusal}
    (refused : checkLengths compared left right = .error refusal) :
    left ≠ right ∧ refusal = .lengths compared left right := by
  unfold checkLengths at refused
  split at refused
  · cases refused
  · rename_i otherLength
    exact ⟨otherLength, (Except.error.inj refused).symm⟩

/-- Where a length is checked before the values, only a wrong length is refused as such. -/
theorem Refusal.isLengths_iff_of_refused
    {compared : Compared}
    {left right : Nat}
    {violations : List Violation}
    {refusal : Refusal}
    (refused :
      (checkLengths compared left right >>= fun _ => checkValid violations) = .error refusal) :
    refusal.IsLengths ↔ left ≠ right := by
  cases lengths : checkLengths compared left right with
  | error other =>
      rw [lengths] at refused
      obtain rfl := Except.error.inj refused
      obtain ⟨otherLength, rfl⟩ := eq_lengths_of_refused lengths
      exact iff_of_true trivial otherLength
  | ok passed =>
      have same := checkLengths_eq_ok_iff.mp lengths
      rw [lengths] at refused
      cases violations with
      | nil => cases refused
      | cons violation rest =>
          obtain rfl := Except.error.inj refused
          exact iff_of_false id fun otherLength => otherLength same

/-- A state that a synapse can take: of its own connection, with a weight that can be stored. -/
structure Synapse.CanTake
    (synapse : Synapse)
    (quantizer : Quantizer)
    (state : SynapseState) :
    Prop where
  ends : state.pre = synapse.pre ∧ state.post = synapse.post
  weight : quantizer.quantize state.mantissa = ⟨state.mantissa, state.actual⟩
  traces : ∀ channel, Traces.range.Contains (state.traces.get channel)

/-- The checks find nothing exactly in a state that the synapse can take: the range of the
mantissa is that of all mantissas on the grid. -/
theorem Synapse.violations_eq_nil_iff_canTake
    {synapse : Synapse}
    {quantizer : Quantizer}
    {position : Nat}
    {state : SynapseState} :
    synapse.violations quantizer position state = [] ↔ synapse.CanTake quantizer state := by
  rw [violations_eq_nil_iff]
  constructor
  · rintro ⟨ends, inRange⟩
    exact ⟨ends, inRange.stored, inRange.traces⟩
  · rintro ⟨ends, weight, traces⟩
    exact ⟨ends, inRange_of_quantized weight.symm traces⟩

/-- A synapse that takes a state has this state. -/
theorem Synapse.CanTake.state_restore
    {synapse : Synapse}
    {quantizer : Quantizer}
    {state : SynapseState}
    (canTake : synapse.CanTake quantizer state) :
    (synapse.restore state).state = state := by
  obtain ⟨pre, post⟩ := canTake.ends
  cases state
  simp only [restore, Synapse.state, SynapseState.mk.injEq, and_true]
  exact ⟨pre.symm, post.symm⟩

/-- A synapse in range can take the state that it has. -/
theorem Synapse.InRange.canTake_state
    {synapse : Synapse}
    {quantizer : Quantizer}
    (inRange : synapse.InRange quantizer) :
    synapse.CanTake quantizer synapse.state :=
  ⟨⟨rfl, rfl⟩, inRange.stored, inRange.traces⟩

theorem of_mem_zip_map
    {part : α → β}
    {items : List α}
    {item : α}
    {value : β}
    (member : (item, value) ∈ items.zip (items.map part)) :
    item ∈ items ∧ part item = value := by
  have pairs : (items.map id).zip (items.map part) = items.map fun item => (item, part item) :=
    List.zip_map'
  rw [List.map_id] at pairs
  rw [pairs] at member
  obtain ⟨other, memberOther, same⟩ := List.mem_map.mp member
  obtain ⟨rfl, rfl⟩ := Prod.mk.inj same
  exact ⟨memberOther, rfl⟩

/-- There is one state for each neuron, with all registers in range. -/
structure NeuronGroup.Accepts (group : NeuronGroup) (states : List NeuronState) : Prop where
  length : group.size = states.length
  inRange : ∀ state ∈ states, state.InRange

/-- There is one state for each synapse, which the synapse can take. -/
structure SynapseGroup.Accepts (group : SynapseGroup) (states : List SynapseState) : Prop where
  length : group.size = states.length
  canTake : ∀ synapse state, (synapse, state) ∈ group.synapses.toList.zip states →
    synapse.CanTake group.quantizer state

namespace NeuronGroup

theorem checkStates_eq_ok_iff {group : NeuronGroup} {states : List NeuronState} :
    group.checkStates states = .ok () ↔ group.Accepts states := by
  rw [checkStates, check_bind_eq_ok_iff, Refusal.checkLengths_eq_ok_iff,
    Refusal.checkValid_eq_ok_iff, checkEach_eq_nil_iff]
  simp only [NeuronState.violations_eq_nil_iff]
  constructor
  · rintro ⟨length, valid⟩
    refine ⟨length, fun state member => ?_⟩
    obtain ⟨position, place⟩ := List.mem_iff_getElem?.mp member
    exact valid position state place
  · rintro ⟨length, inRange⟩
    exact ⟨length, fun position state place => inRange state (List.mem_of_getElem? place)⟩

theorem generator_withStates (group : NeuronGroup) (states : List NeuronState) :
    (group.withStates states).generator = group.generator :=
  rfl

end NeuronGroup

namespace SynapseGroup

theorem checkStates_eq_ok_iff {group : SynapseGroup} {states : List SynapseState} :
    group.checkStates states = .ok () ↔ group.Accepts states := by
  rw [checkStates, check_bind_eq_ok_iff, Refusal.checkLengths_eq_ok_iff,
    Refusal.checkValid_eq_ok_iff, checkEach_eq_nil_iff]
  simp only [Synapse.violations_eq_nil_iff_canTake]
  constructor
  · rintro ⟨length, valid⟩
    refine ⟨length, fun synapse state member => ?_⟩
    obtain ⟨position, place⟩ := List.mem_iff_getElem?.mp member
    exact valid position (synapse, state) place
  · rintro ⟨length, canTake⟩
    exact ⟨length, fun position pair place =>
      canTake pair.1 pair.2 (List.mem_of_getElem? place)⟩

theorem inFlight_withStates (group : SynapseGroup) (states : List SynapseState) :
    (group.withStates states).inFlight = group.inFlight :=
  rfl

theorem generator_withStates (group : SynapseGroup) (states : List SynapseState) :
    (group.withStates states).generator = group.generator :=
  rfl

theorem InRange.accepts_states
    {group : SynapseGroup}
    (inRange : group.InRange) :
    group.Accepts group.states := by
  refine ⟨by simp [size, states], fun synapse state member => ?_⟩
  obtain ⟨memberSynapse, rfl⟩ := of_mem_zip_map member
  exact (inRange synapse memberSynapse).canTake_state

/-- A group that accepts states has these states afterwards. -/
theorem Accepts.states_withStates
    {group : SynapseGroup}
    {states : List SynapseState}
    (accepts : group.Accepts states) :
    (group.withStates states).states = states := by
  have sameLength : group.synapses.toList.length = states.length := accepts.length
  calc
    (group.withStates states).states =
        (group.synapses.toList.zip states).map
          fun pair => (pair.1.restore pair.2).state := by
      simp [SynapseGroup.states, withStates, List.zip, List.map_zipWith]
    _ = (group.synapses.toList.zip states).map Prod.snd :=
      List.map_congr_left fun pair member =>
        (accepts.canTake pair.1 pair.2 member).state_restore
    _ = states := List.map_snd_zip (Nat.le_of_eq sameLength.symm)

end SynapseGroup

namespace Network

/-- A part of a snapshot, with what it has to fit. -/
inductive Part where
  | count (compared : Compared) (groups parts : Nat)
  | neurons (group : NeuronGroup) (states : List NeuronState)
  | synapses (group : SynapseGroup) (states : List SynapseState)

namespace Part

/-- Whether the part is as long as it has to be. -/
def SameLength : Part → Prop
  | count _ groups parts => groups = parts
  | neurons group states => group.size = states.length
  | synapses group states => group.size = states.length

/-- Whether the part is as long as it has to be, and everything in it is acceptable. -/
def Accepted : Part → Prop
  | count _ groups parts => groups = parts
  | neurons group states => group.Accepts states
  | synapses group states => group.Accepts states

/-- The checks of a part. -/
def check : Part → Except Refusal Unit
  | count compared groups parts => Refusal.checkLengths compared groups parts
  | neurons group states => group.checkStates states
  | synapses group states => group.checkStates states

theorem check_eq_ok_iff {part : Part} : part.check = .ok () ↔ part.Accepted := by
  cases part with
  | count compared groups parts => exact Refusal.checkLengths_eq_ok_iff
  | neurons group states => exact NeuronGroup.checkStates_eq_ok_iff
  | synapses group states => exact SynapseGroup.checkStates_eq_ok_iff

theorem isLengths_iff_of_refused
    {part : Part}
    {refusal : Refusal}
    (refused : part.check = .error refusal) :
    refusal.IsLengths ↔ ¬ part.SameLength := by
  cases part with
  | count compared groups parts =>
      obtain ⟨otherLength, rfl⟩ := Refusal.eq_lengths_of_refused refused
      exact iff_of_true trivial otherLength
  | neurons group states => exact Refusal.isLengths_iff_of_refused refused
  | synapses group states => exact Refusal.isLengths_iff_of_refused refused

end Part

variable {network after : Network} {snapshot : Snapshot}

/-- The parts of a snapshot in the order in which they are checked. -/
def parts (network : Network) (snapshot : Snapshot) : List Part :=
  .count .neuronGroups network.neuronGroups.length snapshot.neuronGroups.length ::
  .count .synapseGroups network.synapseGroups.length snapshot.synapseGroups.length ::
  ((network.neuronGroups.zip snapshot.neuronGroups).map fun (group, states) =>
    .neurons group states) ++
  (network.synapseGroups.zip snapshot.synapseGroups).map fun (group, states) =>
    .synapses group states

/-- A snapshot with acceptable states for each group of a network. -/
structure Accepts (network : Network) (snapshot : Snapshot) : Prop where
  neuronCount : network.neuronGroups.length = snapshot.neuronGroups.length
  synapseCount : network.synapseGroups.length = snapshot.synapseGroups.length
  neurons : ∀ group states,
    (group, states) ∈ network.neuronGroups.zip snapshot.neuronGroups → group.Accepts states
  synapses : ∀ group states,
    (group, states) ∈ network.synapseGroups.zip snapshot.synapseGroups → group.Accepts states

theorem forall_parts_accepted_iff :
    (∀ part ∈ network.parts snapshot, part.Accepted) ↔ network.Accepts snapshot := by
  simp only [parts, List.cons_append, List.forall_mem_cons, List.forall_mem_append,
    List.forall_mem_map, Part.Accepted]
  constructor
  · rintro ⟨neuronCount, synapseCount, neurons, synapses⟩
    exact ⟨neuronCount, synapseCount, fun group states => neurons (group, states),
      fun group states => synapses (group, states)⟩
  · intro accepts
    exact ⟨accepts.neuronCount, accepts.synapseCount,
      fun (group, states) => accepts.neurons group states,
      fun (group, states) => accepts.synapses group states⟩

/-- The network with the states of a snapshot that fits it. -/
def withSnapshot (network : Network) (snapshot : Snapshot) : Network :=
  { network with
    neuronGroups := (network.neuronGroups.zip snapshot.neuronGroups).map
      fun (group, states) => group.withStates states
    synapseGroups := (network.synapseGroups.zip snapshot.synapseGroups).map
      fun (group, states) => group.withStates states }

/-- All parts are checked, in order, before anything is replaced. -/
theorem restore_eq (network : Network) (snapshot : Snapshot) :
    network.restore snapshot =
      (network.parts snapshot).forM Part.check >>= fun _ =>
        pure (network.withSnapshot snapshot) := by
  -- Each group checks its part before it replaces anything, so all checks can come first.
  have neurons := mapM_eq_forM_bind (fun (pair : NeuronGroup × List NeuronState) =>
    pair.1.restore_eq pair.2) (network.neuronGroups.zip snapshot.neuronGroups)
  have synapses := mapM_eq_forM_bind (fun (pair : SynapseGroup × List SynapseState) =>
    pair.1.restore_eq pair.2) (network.synapseGroups.zip snapshot.synapseGroups)
  rw [restore_eq_together, restoreTogether, neurons, synapses]
  simp only [parts, List.forM_eq_forM, List.cons_append, List.forM_cons, List.forM_append,
    List.forM_map, bind_assoc, pure_bind]
  rfl

/-- A network whose registers are in range accepts its own snapshot. -/
theorem InRange.accepts_snapshot (inRange : network.InRange) :
    network.Accepts network.snapshot := by
  refine ⟨(List.length_map _).symm, (List.length_map _).symm, ?_, ?_⟩
  · intro group states member
    obtain ⟨memberGroup, rfl⟩ := of_mem_zip_map member
    exact ⟨rfl, inRange.neurons group memberGroup⟩
  · intro group states member
    obtain ⟨memberGroup, rfl⟩ := of_mem_zip_map member
    exact (inRange.synapses group memberGroup).accepts_states

/-- A snapshot that is accepted replaces the states. -/
theorem restore_eq_ok_iff_accepts :
    network.restore snapshot = .ok after ↔
      network.Accepts snapshot ∧ network.withSnapshot snapshot = after := by
  rw [restore_eq, check_bind_eq_ok_iff, forM_eq_ok_iff, pure_eq_ok_iff]
  simp only [Part.check_eq_ok_iff, forall_parts_accepted_iff]

theorem exists_refusal (rejected : ¬ network.Accepts snapshot) :
    ∃ refusal, network.restore snapshot = .error refusal := by
  cases outcome : network.restore snapshot with
  | error refusal => exact ⟨refusal, rfl⟩
  | ok after => exact absurd (restore_eq_ok_iff_accepts.mp outcome).1 rejected

/-- The first part of a snapshot that a network does not accept. -/
def FirstRejected (network : Network) (snapshot : Snapshot) (first : Part) : Prop :=
  ∃ before after, network.parts snapshot = before ++ first :: after ∧
    (∀ part ∈ before, part.Accepted) ∧ ¬ first.Accepted

/-- A refusal is that of the first part which is not accepted. -/
theorem exists_firstRejected
    {refusal : Refusal}
    (refused : network.restore snapshot = .error refusal) :
    ∃ first, network.FirstRejected snapshot first ∧ first.check = .error refusal := by
  have failed : (network.parts snapshot).forM Part.check = .error refusal := by
    rw [restore_eq] at refused
    cases checked : (network.parts snapshot).forM Part.check with
    | error other =>
        rw [checked] at refused
        exact congrArg Except.error (Except.error.inj refused)
    | ok passed =>
        rw [checked] at refused
        cases refused
  obtain ⟨before, first, after, split, passed, failure⟩ := exists_first_of_forM_eq_error failed
  refine ⟨first, ⟨before, after, split, ?_, ?_⟩, failure⟩
  · exact fun part member => Part.check_eq_ok_iff.mp (passed part member)
  · intro accepted
    rw [Part.check_eq_ok_iff.mpr accepted] at failure
    cases failure

/-- A network that has taken over a snapshot, and nothing else, after another network. -/
structure TakesOver (before after : Network) (snapshot : Snapshot) : Prop where
  snapshot : after.snapshot = snapshot
  nextTime : after.nextTime = before.nextTime
  spikeSources : after.spikeSources = before.spikeSources
  delayLines : after.synapseGroups.map (·.inFlight) = before.synapseGroups.map (·.inFlight)
  synapseGenerators :
    after.synapseGroups.map (·.generator) = before.synapseGroups.map (·.generator)
  neuronGenerators :
    after.neuronGroups.map (·.generator) = before.neuronGroups.map (·.generator)
  layout : after.layout = before.layout

/-- What a change by a second list does not touch is as it was. -/
theorem map_map_zip
    {change : α → β → α}
    {key : α → γ}
    (kept : ∀ item value, key (change item value) = key item)
    {items : List α}
    {values : List β}
    (sameLength : items.length = values.length) :
    ((items.zip values).map fun (item, value) => change item value).map key = items.map key := by
  calc
    ((items.zip values).map fun (item, value) => change item value).map key =
        ((items.zip values).map Prod.fst).map key := by
      simp only [List.map_map, Function.comp_def, kept]
    _ = items.map key := by rw [List.map_fst_zip (Nat.le_of_eq sameLength)]

/-- A network that accepts a snapshot takes it over and nothing else. -/
theorem Accepts.takesOver (accepts : network.Accepts snapshot) :
    network.TakesOver (network.withSnapshot snapshot) snapshot := by
  have neurons : (network.withSnapshot snapshot).neuronGroups.map (·.states) =
      snapshot.neuronGroups := by
    rw [withSnapshot, List.map_map]
    exact List.map_snd_zip (Nat.le_of_eq accepts.neuronCount.symm)
  have synapses : (network.withSnapshot snapshot).synapseGroups.map (·.states) =
      snapshot.synapseGroups := by
    calc
      (network.withSnapshot snapshot).synapseGroups.map (·.states) =
          (network.synapseGroups.zip snapshot.synapseGroups).map Prod.snd := by
        rw [withSnapshot, List.map_map]
        exact List.map_congr_left fun (group, states) member =>
          (accepts.synapses group states member).states_withStates
      _ = snapshot.synapseGroups := List.map_snd_zip (Nat.le_of_eq accepts.synapseCount.symm)
  exact
    { snapshot := congrArg₂ Snapshot.mk neurons synapses
      nextTime := rfl
      spikeSources := rfl
      delayLines := map_map_zip SynapseGroup.inFlight_withStates accepts.synapseCount
      synapseGenerators := map_map_zip SynapseGroup.generator_withStates accepts.synapseCount
      neuronGenerators := map_map_zip NeuronGroup.generator_withStates accepts.neuronCount
      layout := layout_restore (restore_eq_ok_iff_accepts.mpr ⟨accepts, rfl⟩) }

/-- A snapshot is restored exactly when all of it is acceptable, and is then taken over and nothing
else.  Otherwise nothing changes, and the refusal is about a length exactly when the first part
that is not accepted has the wrong one. -/
theorem restore_all_or_nothing (network : Network) (snapshot : Snapshot) :
    ((∃ after, network.restore snapshot = .ok after) ↔ network.Accepts snapshot) ∧
    (∀ after, network.restore snapshot = .ok after → network.TakesOver after snapshot) ∧
    (∀ refusal, network.restore snapshot = .error refusal →
      network.perform (.restore snapshot) = ([], network) ∧
      ∃ first, network.FirstRejected snapshot first ∧
        (refusal.IsLengths ↔ ¬ first.SameLength)) := by
  refine ⟨?_, ?_, ?_⟩
  · constructor
    · rintro ⟨after, accepted⟩
      exact (restore_eq_ok_iff_accepts.mp accepted).1
    · intro accepts
      exact ⟨_, restore_eq_ok_iff_accepts.mpr ⟨accepts, rfl⟩⟩
  · intro after accepted
    obtain ⟨accepts, rfl⟩ := restore_eq_ok_iff_accepts.mp accepted
    exact accepts.takesOver
  · intro refusal refused
    obtain ⟨first, rejected, failure⟩ := exists_firstRejected refused
    refine ⟨?_, first, rejected, Part.isLengths_iff_of_refused failure⟩
    rw [perform, call_restoreInPlace_of_refused refused]

/-- The pair of neurons takes over its own snapshot, and refuses it with one neuron group more. -/
theorem restore_all_or_nothing_pair :
    ∃ network, Reachable 1 .pair network ∧
      (∃ after, network.restore network.snapshot = .ok after ∧
        network.TakesOver after network.snapshot) ∧
      ∃ snapshot refusal, network.restore snapshot = .error refusal ∧
        network.perform (.restore snapshot) = ([], network) ∧
        ∃ first, network.FirstRejected snapshot first ∧
          (refusal.IsLengths ↔ ¬ first.SameLength) := by
  obtain ⟨start, accepted⟩ := exists_configure_pair
  have reachable : Reachable 1 .pair (start.performAll [.step 0, .run 2]).2 :=
    ⟨start, _, accepted, rfl⟩
  generalize (start.performAll [.step 0, .run 2]).2 = network at reachable
  have restored := restore_eq_ok_iff_accepts.mpr
    ⟨reachable.sane.inRange.accepts_snapshot, rfl⟩
  have rejected : ¬ network.Accepts ⟨[] :: network.snapshot.neuronGroups, []⟩ := by
    intro accepts
    have sameLength := accepts.neuronCount
    simp [snapshot] at sameLength
  obtain ⟨refusal, refused⟩ := exists_refusal rejected
  exact ⟨network, reachable,
    ⟨_, restored, (restore_all_or_nothing _ _).2.1 _ restored⟩,
    ⟨_, _, refused, (restore_all_or_nothing _ _).2.2 _ refused⟩⟩

end Network

end Neurochip
