import Neurochip.Proofs.DelayLine.Upcoming
import Neurochip.Proofs.Random.Fixed
import Neurochip.Proofs.SynapseGroup.Step

namespace Neurochip

/-!
# What the steps of a synapse group depend on

When rounding draws nothing, the generator of a group is of no importance, and it
never matters where the ring of its delay line is entered.  What remains is the
core of the group.  The main statement says that groups with the same core step
in the same way: same deliveries, same number of changed weights, same core.
-/

namespace SynapseGroup

/-- What the next steps of a group depend on. -/
structure Core where
  wiring : Wiring
  synapses : Array Synapse
  touched : Array Nat
  pending : List PendingChange
  upcoming : List (List Nat)

/-- The core of a group: all of it but its generator and the place at which its ring is entered. -/
def core (group : SynapseGroup) : Core :=
  { wiring := group.wiring
    synapses := group.synapses
    touched := group.touched
    pending := group.pending
    upcoming := group.inFlight.upcoming }

/-- The group with another delay line and another generator. -/
def withTransit (group : SynapseGroup) (line : DelayLine Nat) (generator : Generator) :
    SynapseGroup :=
  { group with inFlight := line, generator := generator }

/-- Groups with the same core differ at most in their delay lines and generators. -/
theorem exists_withTransit
    {first second : SynapseGroup}
    (same : first.core = second.core) :
    ∃ line generator, second = first.withTransit line generator ∧
      first.inFlight.upcoming = line.upcoming := by
  refine ⟨second.inFlight, second.generator, ?_, congrArg Core.upcoming same⟩
  cases first
  cases second
  simp_all [core, wiring, withTransit]

variable {group : SynapseGroup} {line : DelayLine Nat} {mode : RoundingMode}

theorem core_withTransit
    (sameUpcoming : group.inFlight.upcoming = line.upcoming)
    (generator : Generator) :
    (group.withTransit line generator).core = group.core := by
  have sameLength : line.length = group.inFlight.length := by
    rw [← DelayLine.length_upcoming, ← sameUpcoming, DelayLine.length_upcoming]
  simp only [core, wiring, withTransit, sameLength, sameUpcoming]

/-- Delivery does not depend on where the ring is entered. -/
theorem transmit_withTransit
    (within : group.params.delay < group.inFlight.length)
    (sameUpcoming : group.inFlight.upcoming = line.upcoming)
    (generator : Generator)
    (spikes : List Nat)
    (targets : Nat) :
    (group.withTransit line generator).transmit spikes targets =
      ((group.transmit spikes targets).1,
        (group.transmit spikes targets).2.withTransit
          (line.schedule group.params.delay spikes).drain.2 generator) := by
  obtain ⟨due, _⟩ := DelayLine.drain_schedule_of_upcoming_eq sameUpcoming within spikes
  have arriving : (group.withTransit line generator).arriving spikes = group.arriving spikes :=
    due.symm
  have reached : (group.withTransit line generator).reachedPositions spikes targets =
      group.reachedPositions spikes targets := by
    unfold reachedPositions
    rw [arriving]
    rfl
  rw [transmit_eq, transmit_eq, reached]
  rfl

theorem wordless_decayedTraces
    (deterministic : mode ≠ .stochastic)
    (group : SynapseGroup) :
    Draw.Wordless (group.decayedTraces mode) :=
  Draw.wordless_mapM (fun traces => traces.wordless_decay deterministic _) _

theorem wordless_changedSynapses
    (deterministic : mode ≠ .stochastic)
    (group : SynapseGroup) :
    Draw.Wordless (group.changedSynapses mode) :=
  wordless_commitAll deterministic _ _ _ _

/-- The trace update does not depend on the generator. -/
theorem exists_updateTraces_withTransit
    (deterministic : mode ≠ .stochastic)
    (generator : Generator)
    (targetSpikes : List Nat) :
    ∃ next, (group.withTransit line generator).updateTraces targetSpikes mode =
      (group.updateTraces targetSpikes mode).withTransit line next := by
  obtain ⟨next, decays⟩ : ∃ next, (group.withTransit line generator).decayTraces mode =
      (group.decayTraces mode).withTransit line next := by
    have fixed := (wordless_decayedTraces deterministic group).fixed
    refine ⟨((group.decayedTraces mode).run generator).2, ?_⟩
    rw [decayTraces_eq, decayTraces_eq, ← fixed generator]
    rfl
  refine ⟨next, ?_⟩
  rw [updateTraces_eq, updateTraces_eq, markedAnswers, markedAnswers, decays]
  rfl

theorem learn_withTransit (generator : Generator) :
    (group.withTransit line generator).learn = group.learn.withTransit line generator := by
  unfold learn
  cases present : group.rule with
  | none => simp only [withTransit, present]
  | some rule =>
      simp only [withTransit, present]
      rfl

/-- Committing does not depend on the generator. -/
theorem exists_commit_withTransit
    (deterministic : mode ≠ .stochastic)
    (generator : Generator) :
    ∃ next, (group.withTransit line generator).commit mode =
      ((group.commit mode).1, (group.commit mode).2.withTransit line next) := by
  have fixed := (wordless_changedSynapses deterministic group).fixed
  refine ⟨((group.changedSynapses mode).run generator).2, ?_⟩
  rw [commit_eq, commit_eq, ← fixed generator]
  rfl

/-- Groups with the same core deliver the same. -/
theorem deliveries_of_core_eq
    {first second : SynapseGroup}
    (within : first.params.delay < first.inFlight.length)
    (same : first.core = second.core)
    (spikes : List Nat)
    (targets : Nat) :
    (first.transmit spikes targets).1 = (second.transmit spikes targets).1 := by
  obtain ⟨line, generator, rfl, sameUpcoming⟩ := exists_withTransit same
  rw [transmit_withTransit within sameUpcoming]

/-- Groups with the same core step in the same way. -/
theorem stepped_of_core_eq
    (deterministic : mode ≠ .stochastic)
    {first second : SynapseGroup}
    (within : first.params.delay < first.inFlight.length)
    (same : first.core = second.core)
    (stimulus : Stimulus) :
    (first.stepped stimulus mode).1 = (second.stepped stimulus mode).1 ∧
      (first.stepped stimulus mode).2.core = (second.stepped stimulus mode).2.core := by
  obtain ⟨line, generator, rfl, sameUpcoming⟩ := exists_withTransit same
  have transmits := transmit_withTransit within sameUpcoming generator stimulus.spikes
    stimulus.targets
  obtain ⟨_, later⟩ :=
    DelayLine.drain_schedule_of_upcoming_eq sameUpcoming within stimulus.spikes
  generalize (line.schedule first.params.delay stimulus.spikes).drain.2 = rest at transmits later
  obtain ⟨decayed, updates⟩ := exists_updateTraces_withTransit deterministic generator
    stimulus.targetSpikes
  obtain ⟨committed, commits⟩ := exists_commit_withTransit deterministic decayed
  have steps : (first.withTransit line generator).stepped stimulus mode =
      ((first.stepped stimulus mode).1,
        (first.stepped stimulus mode).2.withTransit rest committed) := by
    rw [stepped, traced, transmits, updates, learn_withTransit, ← traced, commits]
    rfl
  rw [steps]
  refine ⟨rfl, (core_withTransit ?_ committed).symm⟩
  rw [inFlight_stepped, later]

/-- Groups with the same core have the same core with the same other synapses. -/
theorem core_withSynapses
    {first second : SynapseGroup}
    (same : first.core = second.core)
    (synapses : Array Synapse) :
    ({ first with synapses := synapses } : SynapseGroup).core =
      ({ second with synapses := synapses } : SynapseGroup).core := by
  obtain ⟨line, generator, rfl, sameUpcoming⟩ := exists_withTransit same
  have upcoming : ({ first with synapses := synapses } : SynapseGroup).inFlight.upcoming =
      line.upcoming := sameUpcoming
  exact (core_withTransit upcoming generator).symm

/-- Groups with the same core set the same weights, or refuse them with the same error. -/
theorem matched_setWeights
    {first second : SynapseGroup}
    (same : first.core = second.core)
    (mantissas : List Int) :
    Matched (fun after other => after.core = other.core)
      (first.setWeights mantissas) (second.setWeights mantissas) := by
  obtain ⟨line, generator, rfl, _⟩ := exists_withTransit same
  rw [setWeights_eq, setWeights_eq]
  refine .bind_same fun _ _ => .accepted ?_
  exact core_withSynapses same _

/-- Groups with the same core have the same core after both have been given the same states. -/
theorem core_withStates
    {first second : SynapseGroup}
    (same : first.core = second.core)
    (states : List SynapseState) :
    (first.withStates states).core = (second.withStates states).core := by
  obtain ⟨line, generator, rfl, _⟩ := exists_withTransit same
  exact core_withSynapses same _

/-- A step without draws leaves the generator where it is. -/
theorem generator_stepped
    (deterministic : mode ≠ .stochastic)
    (group : SynapseGroup)
    (stimulus : Stimulus) :
    (group.stepped stimulus mode).2.generator = group.generator := by
  have learned : ∀ group : SynapseGroup, group.learn.generator = group.generator := by
    intro group
    unfold learn
    split <;> rfl
  calc
    (group.stepped stimulus mode).2.generator =
        (group.traced stimulus mode).learn.generator := by
      rw [stepped, commit_eq]
      exact (wordless_changedSynapses deterministic _).run_snd _
    _ = (group.traced stimulus mode).generator := learned _
    _ = (group.transmit stimulus.spikes stimulus.targets).2.generator := by
      rw [traced, updateTraces_eq, markedAnswers, decayTraces_eq]
      exact (wordless_decayedTraces deterministic _).run_snd _
    _ = group.generator := by rw [transmit_eq]

end SynapseGroup

end Neurochip
