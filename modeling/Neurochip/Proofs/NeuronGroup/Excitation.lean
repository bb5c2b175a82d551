import Neurochip.Proofs.Failure.NeuronGroup
import Neurochip.Proofs.NeuronGroup.Refractory
import Neurochip.Proofs.Random.Fixed
import Neurochip.Proofs.Rounding.Decay

namespace Neurochip.NeuronState

/-!
# More excitation never delays the first spike

Where nothing is drawn, decay, addition and the limits of the registers all keep
the order of two values.  So of two neurons with the same parameters that both
integrate, one that is nowhere above the other stays there as long as it gets no
more input, up to the first spike of the other one.  The main statement compares
two whole runs; as both start with words in their registers, no step of them
ends early.
-/

/-- The steps of a neuron with some inputs, one after the other.  If a step ends early, so does the
run, and the error holds the neuron at its end. -/
def follow
    (params : NeuronParams)
    (mode : RoundingMode)
    (state : NeuronState) :
    List Int → Draw (Except NeuronState (List (NeuronState × Bool)))
  | [] => return .ok []
  | input :: rest => do
      match ← state.updateChecked input params mode with
      | .error left => return .error left
      | .ok updated =>
          let later ← follow params mode updated.1 rest
          return later.map (updated :: ·)

/-- The number of steps before the first one with a spike, or of all steps if there is none. -/
def firstSpike (steps : List (NeuronState × Bool)) : Nat :=
  steps.findIdx Prod.snd

theorem firstSpike_cons (updated : NeuronState × Bool) (later : List (NeuronState × Bool)) :
    firstSpike (updated :: later) = if updated.2 = true then 0 else firstSpike later + 1 := by
  rw [firstSpike, List.findIdx_cons, cond_eq_ite]
  rfl

/-- Two neurons that integrate in their next step, the first one nowhere above the second. -/
structure Below (less more : NeuronState) : Prop where
  ready : less.refractory = 0 ∧ more.refractory = 0
  voltage : less.voltage ≤ more.voltage
  current : less.current ≤ more.current

/-- Before the first spike of the second of two runs there is none in the first one, and what the
first has come to is nowhere above what the second has come to. -/
structure NeverAhead (lessSteps moreSteps : List (NeuronState × Bool)) : Prop where
  below : ∀ position, position < firstSpike moreSteps →
    ∃ less more,
      lessSteps[position]? = some (less, false) ∧
      moreSteps[position]? = some (more, false) ∧
      less.voltage ≤ more.voltage ∧
      less.current ≤ more.current
  notEarlier : firstSpike moreSteps ≤ firstSpike lessSteps

variable {state : NeuronState} {params : NeuronParams} {mode : RoundingMode}

/-- A neuron with words in its registers keeps words in them. -/
theorem HoldsWords.update
    (holds : state.HoldsWords)
    (acceptable : params.Acceptable)
    (input : Int)
    (mode : RoundingMode)
    (generator : Generator) :
    ((state.update input params mode).run generator).1.1.HoldsWords := by
  unfold NeuronState.update
  split
  · exact ⟨holds.voltage, holds.current⟩
  · rw [Draw.run_bind]
    exact (inRange_integrate acceptable _ _ _).holdsWords

/-- A neuron with words in its registers takes up a supported input in a whole step. -/
theorem HoldsWords.updateChecked_eq
    (holds : state.HoldsWords)
    (acceptable : params.Acceptable)
    {input : Int}
    (supported : inputRange.Contains input)
    (mode : RoundingMode) :
    state.updateChecked input params mode = (.ok <$> state.update input params mode) := by
  funext generator
  have fits := holds.contains_total acceptable supported mode generator
  unfold updateChecked NeuronState.update
  split
  · rfl
  · show (_ >>= _ : Draw _).run generator = (_ <$> _ : Draw _).run generator
    rw [Draw.run_bind, if_pos fits]
    rfl

/-- Where nothing is drawn, the step is known, and one in which the neuron integrates if it is ready
to. -/
theorem HoldsWords.exists_updateChecked_eq
    (holds : state.HoldsWords)
    (acceptable : params.Acceptable)
    (deterministic : mode ≠ .stochastic)
    {input : Int}
    (supported : inputRange.Contains input) :
    ∃ updated,
      state.updateChecked input params mode = pure (.ok updated) ∧
      updated.1.HoldsWords ∧
      (state.refractory = 0 →
        Integrates params mode input state updated.1 (updated.2 = true)) := by
  obtain ⟨updated, steps⟩ := state.wordless_update deterministic input params
  refine ⟨updated, ?_, ?_, fun ready => ?_⟩
  · rw [holds.updateChecked_eq acceptable supported, steps]
    rfl
  · have keeps := holds.update acceptable input mode (.ofSeed 0)
    rwa [steps] at keeps
  · have integrates :=
      integrates_update acceptable (ready.trans_le (Nat.zero_le 1)) input mode (.ofSeed 0)
    rwa [steps] at integrates

theorem follow_cons
    {input : Int}
    {updated : NeuronState × Bool}
    (steps : state.updateChecked input params mode = pure (.ok updated))
    {rest : List Int}
    {later : List (NeuronState × Bool)}
    (ran : follow params mode updated.1 rest = pure (.ok later)) :
    follow params mode state (input :: rest) = pure (.ok (updated :: later)) := by
  rw [follow, steps, pure_bind]
  dsimp only
  rw [ran, pure_bind]
  rfl

/-- Where nothing is drawn, a run with supported inputs has a step for each of them. -/
theorem HoldsWords.exists_follow_eq
    (holds : state.HoldsWords)
    (acceptable : params.Acceptable)
    (deterministic : mode ≠ .stochastic)
    {inputs : List Int}
    (supported : ∀ input ∈ inputs, inputRange.Contains input) :
    ∃ steps,
      follow params mode state inputs = pure (.ok steps) ∧
      steps.length = inputs.length := by
  induction inputs generalizing state with
  | nil => exact ⟨[], rfl, rfl⟩
  | cons input rest inductionHypothesis =>
      obtain ⟨supportedFirst, supportedRest⟩ := List.forall_mem_cons.mp supported
      obtain ⟨updated, steps, keeps, -⟩ :=
        holds.exists_updateChecked_eq acceptable deterministic supportedFirst
      obtain ⟨later, ran, sameLength⟩ := inductionHypothesis keeps supportedRest
      exact ⟨updated :: later, follow_cons steps ran, congrArg (· + 1) sameLength⟩

/-- Of two neurons that integrate, the first one nowhere above the second and with no more input, the
first one spikes only if the second one does, and otherwise stays below. -/
theorem Below.step
    {less more lessAfter moreAfter : NeuronState}
    (below : less.Below more)
    (lessHolds : less.HoldsWords)
    (moreHolds : more.HoldsWords)
    (acceptable : params.Acceptable)
    (deterministic : mode ≠ .stochastic)
    {lessInput moreInput : Int}
    (ordered : lessInput ≤ moreInput)
    {lessSpikes moreSpikes : Prop}
    (lessIntegrates : Integrates params mode lessInput less lessAfter lessSpikes)
    (moreIntegrates : Integrates params mode moreInput more moreAfter moreSpikes)
    (silent : ¬ moreSpikes) :
    ¬ lessSpikes ∧ lessAfter.Below moreAfter := by
  obtain ⟨_, _, ⟨lessFirst, rfl⟩, ⟨lessNext, rfl⟩, lessCurrent, less_iff, -, lessSilent⟩ :=
    lessIntegrates
  obtain ⟨_, _, ⟨moreFirst, rfl⟩, ⟨moreNext, rfl⟩, moreCurrent, more_iff, -, moreSilent⟩ :=
    moreIntegrates
  have keptCurrents :=
    RoundingMode.run_decayByRatio_mono deterministic below.current lessHolds.current
      moreHolds.current (Int.natCast_nonneg params.decayCurrent)
      (by exact_mod_cast acceptable.decayCurrent) (by decide : 0 < FixedPoint.decayScale)
      lessFirst moreFirst
  have keptVoltages :=
    RoundingMode.run_decayByRatio_mono deterministic below.voltage lessHolds.voltage
      moreHolds.voltage (Int.natCast_nonneg params.decayVoltage)
      (by exact_mod_cast acceptable.decayVoltage) (by decide : 0 < FixedPoint.decayScale)
      lessNext moreNext
  have currents : lessAfter.current ≤ moreAfter.current := by
    rw [lessCurrent, moreCurrent]
    exact FixedPoint.stateRange.clamp_le_clamp (Int.add_le_add keptCurrents ordered)
  have voltages := FixedPoint.stateRange.clamp_le_clamp (Int.add_le_add keptVoltages currents)
  have alsoSilent : ¬ lessSpikes := fun spikes =>
    silent (more_iff.mpr ((less_iff.mp spikes).trans voltages))
  obtain ⟨lessVoltage, lessReady⟩ := lessSilent alsoSilent
  obtain ⟨moreVoltage, moreReady⟩ := moreSilent silent
  refine ⟨alsoSilent, ⟨lessReady, moreReady⟩, ?_, currents⟩
  rw [lessVoltage, moreVoltage]
  exact voltages

theorem NeverAhead.nil : NeverAhead [] [] :=
  ⟨fun position earlier => absurd earlier (Nat.not_lt_zero position), Nat.le_refl 0⟩

/-- A step in which the second neuron spikes is the last one to compare. -/
theorem NeverAhead.of_spike
    {moreFirst : NeuronState × Bool}
    (spikes : moreFirst.2 = true)
    (lessSteps moreLater : List (NeuronState × Bool)) :
    NeverAhead lessSteps (moreFirst :: moreLater) := by
  have atOnce : firstSpike (moreFirst :: moreLater) = 0 := by
    rw [firstSpike_cons, if_pos spikes]
  constructor
  · intro position earlier
    rw [atOnce] at earlier
    exact absurd earlier (Nat.not_lt_zero position)
  · rw [atOnce]
    exact Nat.zero_le _

/-- A silent step that leaves the first neuron below the second comes before the others. -/
theorem NeverAhead.cons
    {lessFirst moreFirst : NeuronState}
    (below : lessFirst.Below moreFirst)
    {lessLater moreLater : List (NeuronState × Bool)}
    (later : NeverAhead lessLater moreLater) :
    NeverAhead ((lessFirst, false) :: lessLater) ((moreFirst, false) :: moreLater) := by
  have moved : ∀ (first : NeuronState) steps,
      firstSpike ((first, false) :: steps) = firstSpike steps + 1 := by
    intro first steps
    rw [firstSpike_cons, if_neg Bool.false_ne_true]
  constructor
  · intro position earlier
    rw [moved] at earlier
    cases position with
    | zero => exact ⟨lessFirst, moreFirst, rfl, rfl, below.voltage, below.current⟩
    | succ position => exact later.below position (Nat.lt_of_succ_lt_succ earlier)
  · rw [moved, moved]
    exact Nat.succ_le_succ later.notEarlier

/-- Two neurons with the same parameters are ready to integrate, and neither in a register nor in any
input is the first above the second.  Then, away from zero or toward zero, both run through all
inputs whatever the generator.  As long as the second has not spiked, the first has not either and is
at most where the second is, so that the second is not the later one to spike. -/
theorem more_excitation_never_delays
    (accepted : params.violations [] = [])
    (deterministic : mode ≠ .stochastic)
    {less more : NeuronState}
    (lessHolds : less.HoldsWords)
    (moreHolds : more.HoldsWords)
    (below : less.Below more)
    {lessInputs moreInputs : List Int}
    (ordered : List.Forall₂ (· ≤ ·) lessInputs moreInputs)
    (lessSupported : ∀ input ∈ lessInputs, inputRange.Contains input)
    (moreSupported : ∀ input ∈ moreInputs, inputRange.Contains input) :
    ∃ lessSteps moreSteps,
      follow params mode less lessInputs = pure (.ok lessSteps) ∧
      follow params mode more moreInputs = pure (.ok moreSteps) ∧
      lessSteps.length = lessInputs.length ∧
      moreSteps.length = moreInputs.length ∧
      NeverAhead lessSteps moreSteps := by
  have acceptable := NeuronParams.violations_eq_nil_iff.mp accepted
  induction ordered generalizing less more with
  | nil => exact ⟨[], [], rfl, rfl, rfl, rfl, .nil⟩
  | @cons lessInput moreInput lessRest moreRest orderedFirst _ inductionHypothesis =>
      obtain ⟨lessFirst, lessLast⟩ := List.forall_mem_cons.mp lessSupported
      obtain ⟨moreFirst, moreLast⟩ := List.forall_mem_cons.mp moreSupported
      obtain ⟨⟨lessAfter, lessSpikes⟩, lessStep, lessKeeps, lessIntegrates⟩ :=
        lessHolds.exists_updateChecked_eq acceptable deterministic lessFirst
      obtain ⟨⟨moreAfter, moreSpikes⟩, moreStep, moreKeeps, moreIntegrates⟩ :=
        moreHolds.exists_updateChecked_eq acceptable deterministic moreFirst
      -- From the first spike of the second neuron on nothing is compared any more.
      cases moreSpikes with
      | true =>
          obtain ⟨lessLater, lessRan, lessLength⟩ :=
            lessKeeps.exists_follow_eq acceptable deterministic lessLast
          obtain ⟨moreLater, moreRan, moreLength⟩ :=
            moreKeeps.exists_follow_eq acceptable deterministic moreLast
          exact ⟨_, _, follow_cons lessStep lessRan, follow_cons moreStep moreRan,
            congrArg (· + 1) lessLength, congrArg (· + 1) moreLength, .of_spike rfl _ _⟩
      | false =>
          obtain ⟨silent, belowAfter⟩ :=
            below.step lessHolds moreHolds acceptable deterministic orderedFirst
              (lessIntegrates below.ready.1) (moreIntegrates below.ready.2) Bool.false_ne_true
          obtain rfl : lessSpikes = false := Bool.eq_false_iff.mpr silent
          obtain ⟨lessLater, moreLater, lessRan, moreRan, lessLength, moreLength, later⟩ :=
            inductionHypothesis lessKeeps moreKeeps belowAfter lessLast moreLast
          exact ⟨_, _, follow_cons lessStep lessRan, follow_cons moreStep moreRan,
            congrArg (· + 1) lessLength, congrArg (· + 1) moreLength, later.cons belowAfter⟩

/-- A neuron with negative registers and one with positive registers, which loses a third of its
voltage in each step and gets twice the input. -/
theorem more_excitation_never_delays_across_zero :
    NeuronParams.violations { thresholdMantissa := 1, decayVoltage := 1365 } [] = [] ∧
      RoundingMode.towardZero ≠ .stochastic ∧
      HoldsWords { voltage := -100, current := -7 } ∧
      HoldsWords { voltage := 5, current := 3 } ∧
      Below { voltage := -100, current := -7 } { voltage := 5, current := 3 } ∧
      List.Forall₂ (· ≤ ·) [(20 : Int), 30, 40] [40, 60, 80] ∧
      ∃ lessSteps moreSteps,
        follow { thresholdMantissa := 1, decayVoltage := 1365 } .towardZero
          { voltage := -100, current := -7 } [20, 30, 40] = pure (.ok lessSteps) ∧
        follow { thresholdMantissa := 1, decayVoltage := 1365 } .towardZero
          { voltage := 5, current := 3 } [40, 60, 80] = pure (.ok moreSteps) ∧
        lessSteps.length = 3 ∧
        moreSteps.length = 3 ∧
        NeverAhead lessSteps moreSteps := by
  have accepted :
      NeuronParams.violations { thresholdMantissa := 1, decayVoltage := 1365 } [] = [] := by
    decide
  have lessHolds : HoldsWords { voltage := -100, current := -7 } := ⟨by decide, by decide⟩
  have moreHolds : HoldsWords { voltage := 5, current := 3 } := ⟨by decide, by decide⟩
  have below : Below { voltage := -100, current := -7 } { voltage := 5, current := 3 } :=
    ⟨⟨rfl, rfl⟩, by decide, by decide⟩
  have ordered : List.Forall₂ (· ≤ ·) [(20 : Int), 30, 40] [40, 60, 80] :=
    .cons (by decide) (.cons (by decide) (.cons (by decide) .nil))
  exact ⟨accepted, by decide, lessHolds, moreHolds, below, ordered,
    more_excitation_never_delays accepted (by decide) lessHolds moreHolds below ordered
      (by decide) (by decide)⟩

end Neurochip.NeuronState
