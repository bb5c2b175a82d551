import Mathlib.Data.List.Induction
import Neurochip.Network.Request
import Neurochip.Proofs.Network.Layout

namespace Neurochip

/-!
# Networks that calls have led to

A network is used by calling it, again and again, in any order.  A call that is
refused changes nothing.  Whatever holds of the reports so far and the network,
and is kept by a step, by weights that are set and by a snapshot that is
restored, holds wherever calls have led.
-/

namespace Network

/-- A call of a network. -/
inductive Call where
  | step (time : Nat)
  | run (steps : Nat)
  | setWeights (group : Nat) (mantissas : List Int)
  | restore (snapshot : Snapshot)
  | snapshot
  | request (object : ObjectId) (quantity : StateVariable) (selection : Selection)

/-- The reports of the steps of a call, and the network as the call leaves it, even if it is
refused. -/
def perform (network : Network) : Call → List StepReport × Network
  | .step time =>
      let (report, network) := network.step time
      ([report], network)
  | .run steps => network.run steps
  | .setWeights group mantissas =>
      match network.callSynapseGroup? group (SynapseGroup.setWeightsInPlace mantissas) with
      | none => ([], network)
      | some (_, after) => ([], after)
  | .restore snapshot => ([], ((restoreInPlace snapshot).call network).2)
  | .snapshot => ([], network)
  | .request _ _ _ => ([], network)

/-- Weights that are refused change nothing. -/
theorem perform_setWeights
    (network : Network)
    {position : Nat}
    {mantissas : List Int}
    {outcome : Except Refusal Network}
    (sets : network.setWeights position mantissas = some outcome) :
    network.perform (.setWeights position mantissas) = ([], resultOr network outcome) := by
  obtain ⟨group, found, rfl⟩ := Option.map_eq_some_iff.mp sets
  rw [perform, callSynapseGroup?, found, Option.map_some,
    (SynapseGroup.carriesOut_setWeightsInPlace mantissas).call_eq group]
  show ([], { network with
    synapseGroups := network.synapseGroups.set position
      (resultOr group (group.setWeights mantissas)) }) = _
  cases group.setWeights mantissas with
  | error refusal =>
      obtain ⟨inside, rfl⟩ := List.getElem?_eq_some_iff.mp found
      rw [resultOr, List.set_getElem_self]
      rfl
  | ok changed => rfl

theorem perform_setWeights_of_none
    {network : Network}
    {position : Nat}
    {mantissas : List Int}
    (missing : network.setWeights position mantissas = none) :
    network.perform (.setWeights position mantissas) = ([], network) := by
  have absent := Option.map_eq_none_iff.mp missing
  rw [perform, callSynapseGroup?, absent]
  rfl

/-- A snapshot that is refused changes nothing. -/
theorem perform_restore (network : Network) (snapshot : Snapshot) :
    network.perform (.restore snapshot) = ([], resultOr network (network.restore snapshot)) :=
  congrArg (fun called => ([], called.2)) ((carriesOut_restoreInPlace snapshot).call_eq network)

/-- The reports of all steps of some calls, and the network after them. -/
def performAll (network : Network) : List Call → List StepReport × Network
  | [] => ([], network)
  | call :: rest =>
      let (reports, network) := network.perform call
      let (others, network) := network.performAll rest
      (reports ++ others, network)

/-- What a call answers. -/
inductive Response where
  | reports (reports : List StepReport)
  /-- There is no answer without such a synapse group. -/
  | weightsSet (outcome? : Option (Except Refusal Unit))
  | restored (outcome : Except Refusal Unit)
  | snapshot (snapshot : Snapshot)
  | values (outcome : Except RequestError (List Int))

/-- What a network answers to a call. -/
def respond (network : Network) : Call → Response
  | .step time => .reports [(network.step time).1]
  | .run steps => .reports (network.run steps).1
  | .setWeights group mantissas =>
      .weightsSet ((network.setWeights group mantissas).map ((fun _ => ()) <$> ·))
  | .restore snapshot => .restored ((fun _ => ()) <$> network.restore snapshot)
  | .snapshot => .snapshot network.snapshot
  | .request object quantity selection => .values (network.request object quantity selection)

/-- What a network answers to some calls, one after the other, and the snapshot after each. -/
def answers (network : Network) : List Call → List (Response × Snapshot)
  | [] => []
  | call :: rest =>
      let after := (network.perform call).2
      (network.respond call, after.snapshot) :: after.answers rest

/-- The reports of steps at the given times, one after the other, and the network after them. -/
def steps (network : Network) (times : List Nat) : List StepReport × Network :=
  network.performAll (times.map .step)

/-- Calls after other calls are performed on the network that those have led to. -/
theorem performAll_append (network : Network) (first second : List Call) :
    network.performAll (first ++ second) =
      ((network.performAll first).1 ++ ((network.performAll first).2.performAll second).1,
        ((network.performAll first).2.performAll second).2) := by
  induction first generalizing network with
  | nil => rfl
  | cons call rest inductionHypothesis =>
      simp only [List.cons_append, performAll, inductionHypothesis, List.append_assoc]

@[simp] theorem steps_nil (network : Network) : network.steps [] = ([], network) :=
  rfl

/-- One step more comes after the others. -/
theorem steps_concat (network : Network) (times : List Nat) (time : Nat) :
    network.steps (times ++ [time]) =
      ((network.steps times).1 ++ [(network.steps times).2.reportOf time],
        (network.steps times).2.next time) := by
  rw [steps, List.map_append, performAll_append, ← steps]
  simp only [List.map_cons, List.map_nil, performAll, perform, step_eq, List.append_nil]

/-- Each step makes one report. -/
theorem length_steps (network : Network) (times : List Nat) :
    (network.steps times).1.length = times.length := by
  induction times using List.reverseRecOn with
  | nil => rfl
  | append_singleton times time inductionHypothesis =>
      simp [steps_concat, inductionHypothesis]

/-- What every step keeps, from the reports so far on. -/
def KeptByStep (holds : List StepReport → Network → Prop) : Prop :=
  ∀ history network time, holds history network →
    holds (history ++ [network.reportOf time]) (network.next time)

/-- What weights that are set keep. -/
def KeptBySetWeights (holds : List StepReport → Network → Prop) : Prop :=
  ∀ history network group mantissas after, holds history network →
    network.setWeights group mantissas = some (.ok after) → holds history after

/-- What a snapshot that is restored keeps. -/
def KeptByRestore (holds : List StepReport → Network → Prop) (snapshot : Snapshot) : Prop :=
  ∀ history network after, holds history network →
    network.restore snapshot = .ok after → holds history after

/-- What every step keeps is kept by a run. -/
theorem KeptByStep.run
    {holds : List StepReport → Network → Prop}
    (kept : KeptByStep holds)
    (steps : Nat)
    {history : List StepReport}
    {network : Network}
    (before : holds history network) :
    holds (history ++ (network.run steps).1) (network.run steps).2 := by
  induction steps generalizing history network with
  | zero =>
      rw [Network.run, List.append_nil]
      exact before
  | succ steps inductionHypothesis =>
      have after := inductionHypothesis (kept history network network.nextTime before)
      rw [List.append_assoc] at after
      rw [Network.run, step_eq]
      exact after

/-- What steps, set weights and the restored snapshots keep holds after all calls. -/
theorem performAll_induction
    (holds : List StepReport → Network → Prop)
    (byStep : KeptByStep holds)
    (bySetWeights : KeptBySetWeights holds)
    {calls : List Call}
    (byRestore : ∀ snapshot, Call.restore snapshot ∈ calls → KeptByRestore holds snapshot)
    (history : List StepReport)
    {network : Network}
    (before : holds history network) :
    holds (history ++ (network.performAll calls).1) (network.performAll calls).2 := by
  induction calls generalizing history network with
  | nil =>
      rw [performAll, List.append_nil]
      exact before
  | cons call rest inductionHypothesis =>
      have here : holds (history ++ (network.perform call).1) (network.perform call).2 := by
        cases call with
        | step time =>
            rw [perform, step_eq]
            exact byStep history network time before
        | run steps => exact byStep.run steps before
        | setWeights group mantissas =>
            cases outcome : network.setWeights group mantissas with
            | none =>
                rw [perform_setWeights_of_none outcome, List.append_nil]
                exact before
            | some result =>
                rw [perform_setWeights network outcome, List.append_nil]
                refine resultOr_of_accepted (holds history) before fun after accepted => ?_
                exact bySetWeights history network group mantissas after before
                  (outcome.trans (congrArg some accepted))
        | restore snapshot =>
            rw [perform_restore, List.append_nil]
            exact resultOr_of_accepted (holds history) before fun after accepted =>
              byRestore snapshot List.mem_cons_self history network after before accepted
        | snapshot =>
            rw [perform, List.append_nil]
            exact before
        | request object quantity selection =>
            rw [perform, List.append_nil]
            exact before
      have after := inductionHypothesis
        (fun snapshot member => byRestore snapshot (List.mem_cons_of_mem _ member)) _ here
      rw [List.append_assoc] at after
      exact after

end Network

end Neurochip
