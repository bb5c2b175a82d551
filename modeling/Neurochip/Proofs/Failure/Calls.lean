import Neurochip.Proofs.Failure.Saving
import Neurochip.Proofs.Failure.Step

namespace Neurochip

/-!
# Calls of a network do not fail

A configured network is sane, and every call leaves it so.  Therefore no call
ever fails, in whatever order calls are made, as long as the steps take place
before the last time and few spikes are delivered in each of them.
-/

namespace Network

/-- Steps through consecutive times, starting at the next one. -/
def runGuarded (network : Network) : Nat → Except Failure (List StepReport × Network)
  | 0 => return ([], network)
  | steps + 1 => do
      let (report, network) ← network.stepGuarded network.nextTime
      let (reports, network) ← network.runGuarded steps
      return (report :: reports, network)

/-- Replaces the weights of a synapse group, if there is such a group. -/
def setWeightsGuarded (network : Network) (group : Nat) (mantissas : List Int) :
    Option (GuardedCheck Network) :=
  network.synapseGroups[group]?.map fun synapses => do
    let synapses ← synapses.setWeightsGuarded mantissas
    return { network with synapseGroups := network.synapseGroups.set group synapses }

/-- The states of all neurons and synapses. -/
def snapshotGuarded (network : Network) : Except Failure Snapshot := do
  let synapseGroups ← network.synapseGroups.mapM (·.statesGuarded)
  return { neuronGroups := network.neuronGroups.map (·.states), synapseGroups := synapseGroups }

/-- The network with the states of a snapshot, if every group accepts its part. -/
def restoreGuarded (network : Network) (snapshot : Snapshot) : GuardedCheck Network := do
  Refusal.checkLengths .neuronGroups network.neuronGroups.length snapshot.neuronGroups.length
  Refusal.checkLengths .synapseGroups network.synapseGroups.length
    snapshot.synapseGroups.length
  let neuronGroups ← (network.neuronGroups.zip snapshot.neuronGroups).mapM
    fun (group, states) => group.restoreGuarded states
  let synapseGroups ← (network.synapseGroups.zip snapshot.synapseGroups).mapM
    fun (group, states) => group.restoreGuarded states
  return { network with neuronGroups := neuronGroups, synapseGroups := synapseGroups }

/-- The reports of the steps of a call, and the network after it.  A request only looks up what may
be missing, and complains if it is. -/
def performGuarded (network : Network) : Call → Except Failure (List StepReport × Network)
  | .step time => do
      let (report, network) ← network.stepGuarded time
      return ([report], network)
  | .run steps => network.runGuarded steps
  | .setWeights group mantissas =>
      match network.setWeightsGuarded group mantissas with
      | none => return ([], network)
      | some guarded => do
          let outcome ← guarded.run
          return ([], resultOr network outcome)
  | .restore snapshot => do
      let outcome ← (network.restoreGuarded snapshot).run
      return ([], resultOr network outcome)
  | .snapshot => do
      let _ ← network.snapshotGuarded
      return ([], network)
  | .request _ _ _ => return ([], network)

/-- The reports of all steps of some calls, and the network after them. -/
def performAllGuarded (network : Network) :
    List Call → Except Failure (List StepReport × Network)
  | [] => return ([], network)
  | call :: rest => do
      let (reports, network) ← network.performGuarded call
      let (others, network) ← network.performAllGuarded rest
      return (reports ++ others, network)

variable {network : Network}

/-- A run of a sane network does not fail if its steps are bounded. -/
theorem Sane.runGuarded_eq
    (sane : network.Sane)
    {steps : Nat}
    (bounded : ∀ report ∈ (network.run steps).1, report.Bounded) :
    network.runGuarded steps = .ok (network.run steps) := by
  induction steps generalizing network with
  | zero => rfl
  | succ steps inductionHypothesis =>
      rw [run, step_eq] at bounded
      obtain ⟨here, later⟩ := List.forall_mem_cons.mp bounded
      rw [runGuarded, run, bind_of_eq_ok (sane.stepGuarded_eq here), step_eq]
      dsimp only
      rw [bind_of_eq_ok (inductionHypothesis (sane.next network.nextTime) later)]
      rfl

theorem snapshotGuarded_eq (network : Network) :
    network.snapshotGuarded = .ok network.snapshot := by
  have saves : network.synapseGroups.mapM (·.statesGuarded) =
      .ok (network.synapseGroups.map (·.states)) :=
    mapM_eq_ok_map fun group _ => group.statesGuarded_eq
  unfold snapshotGuarded
  rw [bind_of_eq_ok saves]
  rfl

theorem Sane.exponent
    (sane : network.Sane)
    {group : SynapseGroup}
    (member : group ∈ network.synapseGroups) :
    -8 ≤ group.quantizer.exponent ∧ group.quantizer.exponent ≤ 7 :=
  (sane.placed member).ready.exponent

/-- A sane network sets weights without failure. -/
theorem Sane.agrees_setWeights
    (sane : network.Sane)
    {position : Nat}
    {group : SynapseGroup}
    (found : network.synapseGroups[position]? = some group)
    (mantissas : List Int) :
    ∃ guarded outcome, network.setWeightsGuarded position mantissas = some guarded ∧
      network.setWeights position mantissas = some outcome ∧
      GuardedCheck.Agrees guarded outcome := by
  rw [setWeightsGuarded, setWeights, found]
  refine ⟨_, _, rfl, rfl, ?_⟩
  refine (SynapseGroup.agrees_setWeights (sane.exponent (List.mem_of_getElem? found))
    mantissas).bind fun _ _ => ?_
  rfl

/-- A sane network restores a snapshot without failure. -/
theorem Sane.agrees_restore (sane : network.Sane) (snapshot : Snapshot) :
    GuardedCheck.Agrees (network.restoreGuarded snapshot) (network.restore snapshot) := by
  have neurons : GuardedCheck.Agrees
      ((network.neuronGroups.zip snapshot.neuronGroups).mapM
        fun (group, states) => group.restoreGuarded states)
      ((network.neuronGroups.zip snapshot.neuronGroups).mapM
        fun (group, states) => group.restore states) :=
    GuardedCheck.agrees_mapM fun (group, states) _ => NeuronGroup.agrees_restore group states
  have synapses : GuardedCheck.Agrees
      ((network.synapseGroups.zip snapshot.synapseGroups).mapM
        fun (group, states) => group.restoreGuarded states)
      ((network.synapseGroups.zip snapshot.synapseGroups).mapM
        fun (group, states) => group.restore states) :=
    GuardedCheck.agrees_mapM fun (_, states) member =>
      SynapseGroup.agrees_restore (sane.exponent (List.of_mem_zip member).1) states
  rw [restore_eq_together]
  unfold restoreGuarded restoreTogether
  refine (GuardedCheck.agrees_lift _).bind fun _ _ => ?_
  refine (GuardedCheck.agrees_lift _).bind fun _ _ => ?_
  refine neurons.bind fun _ _ => ?_
  refine synapses.bind fun _ _ => ?_
  rfl

/-- A call of a sane network does not fail if its steps are bounded. -/
theorem Sane.performGuarded_eq
    (sane : network.Sane)
    {call : Call}
    (bounded : ∀ report ∈ (network.perform call).1, report.Bounded) :
    network.performGuarded call = .ok (network.perform call) := by
  cases call with
  | step time =>
      rw [perform, step_eq] at bounded
      have here := bounded (network.reportOf time) List.mem_cons_self
      rw [performGuarded, bind_of_eq_ok (sane.stepGuarded_eq here)]
      rfl
  | run steps => exact sane.runGuarded_eq bounded
  | setWeights position mantissas =>
      cases found : network.synapseGroups[position]? with
      | none =>
          have missing : network.setWeights position mantissas = none := by
            rw [setWeights, found]
            rfl
          rw [perform_setWeights_of_none missing, performGuarded, setWeightsGuarded, found]
          rfl
      | some group =>
          obtain ⟨guarded, outcome, setsGuarded, sets, agrees⟩ :=
            sane.agrees_setWeights found mantissas
          rw [perform_setWeights network sets, performGuarded, setsGuarded]
          exact bind_of_eq_ok agrees
  | restore snapshot =>
      rw [perform_restore, performGuarded, bind_of_eq_ok (sane.agrees_restore snapshot)]
      rfl
  | snapshot =>
      rw [performGuarded, bind_of_eq_ok network.snapshotGuarded_eq]
      rfl
  | request object quantity selection => rfl

/-- However a configured network is called, nothing ever fails and everything is as it is without
guards, as long as all steps take place before the last time and deliver few spikes. -/
theorem calls_never_fail
    {processors : Nat}
    {params : NetworkParams}
    {start : Network}
    (accepted : configure processors params = .ok start)
    {calls : List Call}
    (bounded : ∀ report ∈ (start.performAll calls).1, report.Bounded) :
    start.performAllGuarded calls = .ok (start.performAll calls) := by
  have sane := sane_of_configure accepted
  -- Later calls start from networks that are sane, but need not be configured.
  clear accepted
  induction calls generalizing start with
  | nil => rfl
  | cons call rest inductionHypothesis =>
      rw [performAll] at bounded
      obtain ⟨here, later⟩ := List.forall_mem_append.mp bounded
      have saneAfter : (start.perform call).2.Sane := sane.performAll [call]
      rw [performAllGuarded, performAll, bind_of_eq_ok (sane.performGuarded_eq here)]
      dsimp only
      rw [bind_of_eq_ok (inductionHypothesis later saneAfter)]
      rfl

/-- Two steps of a network, and calls between and after them. -/
def callsAround (network : Network) : List Call :=
  [.step 0, .setWeights 0 [300, 0], .restore network.snapshot, .step 1, .snapshot]

/-- Few spikes are delivered in these steps of the pair of neurons. -/
theorem bounded_pair :
    ∀ start ∈ (configure 1 .pair).toOption,
      ∀ report ∈ (start.performAll start.callsAround).1, report.Bounded := by
  decide +kernel

/-- Two steps of the pair of neurons, and the calls around them, do not fail. -/
theorem calls_never_fail_pair :
    ∃ start, configure 1 .pair = .ok start ∧
      (∀ report ∈ (start.performAll start.callsAround).1, report.Bounded) ∧
      start.performAllGuarded start.callsAround = .ok (start.performAll start.callsAround) := by
  obtain ⟨start, accepted⟩ := exists_configure_pair
  have bounded := bounded_pair start (by rw [accepted]; rfl)
  exact ⟨start, accepted, bounded, calls_never_fail accepted bounded⟩

end Network

end Neurochip
