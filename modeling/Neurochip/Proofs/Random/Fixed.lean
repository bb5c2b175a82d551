import Neurochip.Proofs.Random.Draws
import Neurochip.SynapseGroup

namespace Neurochip

/-!
# Rounding that draws nothing

Only stochastic rounding asks the generator for anything.  Under the other two
modes every decay, update and commit takes no words: its value is the same
whatever generator it starts from, and the generator stays where it is.
-/

namespace Draw

/-- A draw that takes no words: its value is known. -/
def Wordless (draw : Draw α) : Prop :=
  ∃ value, draw = pure value

/-- A draw whose value does not depend on the generator. -/
def Fixed (draw : Draw α) : Prop :=
  ∀ first second, (draw.run first).1 = (draw.run second).1

theorem Wordless.fixed {draw : Draw α} (wordless : Wordless draw) : Fixed draw := by
  obtain ⟨value, rfl⟩ := wordless
  exact fun _ _ => rfl

/-- A draw that takes no words leaves the generator where it is. -/
theorem Wordless.run_snd
    {draw : Draw α}
    (wordless : Wordless draw)
    (generator : Generator) :
    (draw.run generator).2 = generator := by
  obtain ⟨value, rfl⟩ := wordless
  rfl

theorem wordless_pure (value : α) : Wordless (pure value) :=
  ⟨value, rfl⟩

theorem Wordless.bind
    {draw : Draw α}
    {next : α → Draw β}
    (wordless : Wordless draw)
    (each : ∀ value, Wordless (next value)) :
    Wordless (draw >>= next) := by
  obtain ⟨value, rfl⟩ := wordless
  exact each value

theorem wordless_mapM
    {draw : α → Draw β}
    (each : ∀ item, Wordless (draw item))
    (items : List α) :
    Wordless (items.mapM draw) := by
  induction items with
  | nil => exact wordless_pure []
  | cons item rest inductionHypothesis =>
      rw [List.mapM_cons]
      exact (each item).bind fun _ => inductionHypothesis.bind fun _ => wordless_pure _

/-- Draws whose values do not depend on the generator have their values one by one. -/
theorem run_mapM_of_fixed
    {α β : Type}
    {draw : α → Draw β}
    (each : ∀ item, Fixed (draw item))
    (items : List α)
    (generator other : Generator) :
    ((items.mapM draw).run generator).1 = items.map fun item => ((draw item).run other).1 := by
  induction items generalizing generator with
  | nil => rfl
  | cons item rest inductionHypothesis =>
      rw [run_mapM_cons, List.map_cons, inductionHypothesis, each item generator other]

end Draw

open Draw

variable {mode : RoundingMode}

namespace RoundingMode

theorem wordless_quotient
    (deterministic : mode ≠ .stochastic)
    (numerator : Int)
    (denominator : Nat) :
    Wordless (mode.quotient numerator denominator) := by
  cases mode with
  | stochastic => exact absurd rfl deterministic
  | awayFromZero => exact wordless_pure _
  | towardZero => exact wordless_pure _

theorem wordless_decayByRatio
    (deterministic : mode ≠ .stochastic)
    (value numerator : Int)
    (denominator : Nat) :
    Wordless (mode.decayByRatio value numerator denominator) := by
  unfold decayByRatio
  split
  · exact wordless_pure _
  · exact (wordless_quotient deterministic _ _).bind fun _ => wordless_pure _

theorem wordless_roundToMultiple
    (deterministic : mode ≠ .stochastic)
    (value multiple : Int) :
    Wordless (mode.roundToMultiple value multiple) := by
  unfold roundToMultiple
  split
  · exact wordless_pure _
  · exact (wordless_quotient deterministic _ _).bind fun _ => wordless_pure _

end RoundingMode

/-- Traces decay without draws. -/
theorem Traces.wordless_decay
    (deterministic : mode ≠ .stochastic)
    (traces : Traces)
    (params : Channels TraceParams) :
    Wordless (traces.decay params mode) := by
  have each := fun value tau => RoundingMode.wordless_decayByRatio deterministic value 1 tau
  exact (each _ _).bind fun _ => (each _ _).bind fun _ => (each _ _).bind fun _ =>
    (each _ _).bind fun _ => (each _ _).bind fun _ => wordless_pure _

/-- Neurons are updated without draws. -/
theorem NeuronState.wordless_update
    (deterministic : mode ≠ .stochastic)
    (state : NeuronState)
    (input : Int)
    (params : NeuronParams) :
    Wordless (state.update input params mode) := by
  have decays := fun value constant =>
    RoundingMode.wordless_decayByRatio deterministic value constant FixedPoint.decayScale
  unfold NeuronState.update
  split
  · exact wordless_pure _
  · refine (decays _ _).bind fun keptCurrent => (decays _ _).bind fun keptVoltage => ?_
    dsimp only
    split <;> exact wordless_pure _

theorem Synapse.wordless_changedWeight
    (deterministic : mode ≠ .stochastic)
    (synapse : Synapse)
    (quantizer : Quantizer)
    (change : Int) :
    Wordless (synapse.changedWeight quantizer mode change) :=
  (RoundingMode.wordless_roundToMultiple deterministic _ _).bind fun _ => wordless_pure _

/-- Changes are committed without draws. -/
theorem SynapseGroup.wordless_commitAll
    (deterministic : mode ≠ .stochastic)
    (quantizer : Quantizer)
    (changes : List PendingChange)
    (synapses : Array Synapse)
    (different : Nat) :
    Wordless (commitAll quantizer mode changes synapses different) := by
  induction changes generalizing synapses different with
  | nil => exact wordless_pure _
  | cons pending rest inductionHypothesis =>
      unfold commitAll
      split
      · exact inductionHypothesis _ _
      · exact (Synapse.wordless_changedWeight deterministic _ _ _).bind fun _ =>
          inductionHypothesis _ _

end Neurochip
