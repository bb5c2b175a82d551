import Neurochip.Proofs.Rounding.Rest
import Neurochip.Proofs.Rounding.Unbiased
import Neurochip.Proofs.Trace.Counted

namespace Neurochip

/-!
# Whether a trace fades within its time constant

A trace loses the fraction `1 / tau` of itself in each step, and it is the loss
that is rounded.  An impulse below `tau` loses less than one, so nothing is left
of the loss where it is rounded toward zero, and rounding by chance may leave
nothing either.  The main statement says when an impulse is still whole after as
many steps as its time constant counts.
-/

namespace RoundingMode

/-- A value loses nothing where its loss is rounded to zero: it is below the denominator, and the
loss is rounded toward zero, or by a draw that does not fall below the value. -/
def KeepsWhole (mode : RoundingMode) (value : Int) (tau draw : Nat) : Prop :=
  value < tau ∧ (mode = towardZero ∨ mode = stochastic ∧ value ≤ draw)

variable {value : Int} {tau : Nat}

theorem quotientAt_eq_zero_iff
    {draw : Nat}
    (positive : 0 < value)
    (fades : 1 ≤ tau) :
    quotientAt value tau draw = 0 ↔ value < tau ∧ value ≤ draw := by
  unfold quotientAt
  rcases lt_or_ge value tau with small | large
  · rw [Int.emod_eq_of_lt positive.le small, Int.ediv_eq_zero_of_lt positive.le small]
    split <;> omega
  · have whole : 1 ≤ value / tau := by
      rw [Int.le_ediv_iff_mul_le (by omega)]
      omega
    split <;> omega

/-- A positive value decays to less, or is kept whole. -/
theorem decayByRatio_eq_self_iff
    {mode : RoundingMode}
    (positive : 0 < value)
    (fits : Bounds.int32.Contains value)
    (fades : 1 ≤ tau)
    (generator : Generator) :
    ((mode.decayByRatio value 1 tau).run generator).1 = value ↔
      mode.KeepsWhole value tau ((Draw.below tau).run generator).1 := by
  have proper : (1 : Int) ≤ tau := by exact_mod_cast fades
  unfold KeepsWhole
  cases mode with
  | stochastic =>
      rw [run_decayByRatio_eq _ fits Int.one_nonneg proper fades, run_quotient_stochastic,
        Int.mul_one, sub_eq_self, quotientAt_eq_zero_iff positive fades]
      simp
  | awayFromZero =>
      have lost : ((awayFromZero.decayByRatio value 1 tau).run generator).1 ≠ value :=
        fun kept => ne_of_gt positive
          (eq_zero_of_awayFromZero_rests fits (Int.le_refl 1) proper kept)
      simp [lost]
  | towardZero =>
      rw [towardZero_rests_iff fits Int.one_nonneg proper fades generator, Int.mul_one,
        Int.natAbs_of_nonneg positive.le]
      simp

/-- Some step of several does not keep a value whole exactly if losses are rounded away from zero, or
the value is not below the denominator, or a draw falls below the value. -/
theorem exists_not_keepsWhole_iff
    {mode : RoundingMode}
    {calls : Nat}
    (called : 0 < calls)
    {drawn : Nat → Nat} :
    (∃ call < calls, ¬ mode.KeepsWhole value tau (drawn call)) ↔
      mode = awayFromZero ∨ tau ≤ value ∨
        mode = stochastic ∧ ∃ call < calls, drawn call < value := by
  unfold KeepsWhole
  rcases lt_or_ge value tau with small | large
  · cases mode with
    | stochastic => simp [small, Int.not_le.mpr small]
    | awayFromZero => simpa using ⟨0, called⟩
    | towardZero => simp [small, Int.not_le.mpr small]
  · simpa [large, Int.not_lt.mpr large] using ⟨0, called⟩

end RoundingMode

namespace Traces

variable {traces : Traces} {params : Channels TraceParams}

/-- Traces after several steps of decay, and the generator behind them. -/
def decayed
    (traces : Traces)
    (params : Channels TraceParams)
    (mode : RoundingMode)
    (calls : Nat)
    (generator : Generator) :
    Traces × Generator :=
  (Draw.iterate (·.decay params mode) calls traces).run generator

/-- The number below the time constant of a channel that a step after some others draws for it, if it
draws at all. -/
def drawnAt
    (traces : Traces)
    (params : Channels TraceParams)
    (mode : RoundingMode)
    (generator : Generator)
    (channel : Channel)
    (call : Nat) :
    Nat :=
  let (before, next) := traces.decayed params mode call generator
  ((Draw.below (params.get channel).tau).run (before.generatorAt params mode next channel)).1

/-- One more step of decay, for one trace. -/
theorem get_decayed_succ
    (mode : RoundingMode)
    (calls : Nat)
    (generator : Generator)
    (channel : Channel) :
    (traces.decayed params mode (calls + 1) generator).1.get channel =
      ((mode.decayByRatio ((traces.decayed params mode calls generator).1.get channel) 1
          (params.get channel).tau).run
        ((traces.decayed params mode calls generator).1.generatorAt params mode
          (traces.decayed params mode calls generator).2 channel)).1 := by
  rw [decayed, Draw.run_iterate_succ, get_run_decay]
  rfl

/-- A trace that has faded for some steps is not larger than it was. -/
theorem get_decayed_between
    {channel : Channel}
    (nonnegative : 0 ≤ traces.get channel)
    (params : Channels TraceParams)
    (mode : RoundingMode)
    (calls : Nat)
    (generator : Generator) :
    0 ≤ (traces.decayed params mode calls generator).1.get channel ∧
      (traces.decayed params mode calls generator).1.get channel ≤ traces.get channel := by
  induction calls with
  | zero => exact ⟨nonnegative, Int.le_refl _⟩
  | succ calls inductionHypothesis =>
      rw [get_decayed_succ]
      have proper : (params.get channel).tau = 0 ∨ (1 : Int) ≤ (params.get channel).tau := by omega
      exact mode.run_decayByRatio_between Int.one_nonneg proper (Int.le_refl 0) nonnegative
        inductionHypothesis _

/-- A trace is whole exactly as long as every step has kept it whole. -/
theorem get_decayed_eq_iff
    {channel : Channel}
    (positive : 0 < traces.get channel)
    (fits : Bounds.int32.Contains (traces.get channel))
    (fades : 1 ≤ (params.get channel).tau)
    (mode : RoundingMode)
    (calls : Nat)
    (generator : Generator) :
    (traces.decayed params mode calls generator).1.get channel = traces.get channel ↔
      ∀ call < calls, mode.KeepsWhole (traces.get channel) (params.get channel).tau
        (traces.drawnAt params mode generator channel call) := by
  induction calls with
  | zero => exact iff_of_true rfl fun _ impossible => absurd impossible (Nat.not_lt_zero _)
  | succ calls inductionHypothesis =>
      rw [Nat.forall_lt_succ_right, ← inductionHypothesis]
      have proper : (params.get channel).tau = 0 ∨ (1 : Int) ≤ (params.get channel).tau := by omega
      obtain ⟨nonnegative, atMost⟩ := get_decayed_between positive.le params mode calls
        generator
      constructor
      · intro whole
        rw [get_decayed_succ] at whole
        -- What is whole in the end has been whole before the last step.
        have earlier : (traces.decayed params mode calls generator).1.get channel =
            traces.get channel := by
          refine le_antisymm atMost ?_
          rw [← whole]
          exact (mode.run_decayByRatio_between Int.one_nonneg proper (Int.le_refl 0) nonnegative
            ⟨nonnegative, Int.le_refl _⟩ _).2
        rw [earlier] at whole
        exact ⟨earlier, (RoundingMode.decayByRatio_eq_self_iff positive fits fades _).mp whole⟩
      · rintro ⟨earlier, kept⟩
        rw [get_decayed_succ, earlier]
        exact (RoundingMode.decayByRatio_eq_self_iff positive fits fades _).mpr kept

/-- Steps leave less of a trace exactly if one of them does not keep it whole. -/
theorem get_decayed_lt_iff
    {channel : Channel}
    (positive : 0 < traces.get channel)
    (fits : Bounds.int32.Contains (traces.get channel))
    (fades : 1 ≤ (params.get channel).tau)
    (mode : RoundingMode)
    {calls : Nat}
    (called : 0 < calls)
    (generator : Generator) :
    (traces.decayed params mode calls generator).1.get channel < traces.get channel ↔
      mode = .awayFromZero ∨
      (params.get channel).tau ≤ traces.get channel ∨
      mode = .stochastic ∧ ∃ call < calls,
        traces.drawnAt params mode generator channel call < traces.get channel := by
  have atMost := (get_decayed_between positive.le params mode calls generator).2
  rw [lt_iff_le_and_ne, and_iff_right atMost, Ne,
    get_decayed_eq_iff positive fits fades mode calls generator,
    ← RoundingMode.exists_not_keepsWhole_iff called]
  push Not
  rfl

/-- After its first spike a trace holds the impulse of its channel. -/
theorem exists_addImpulsesChecked_zero
    {channel : Channel}
    (bytes : ∀ other, (params.get other).impulse ≤ 255)
    (small : (params.get channel).impulse ≤ 127) :
    ∃ spiked, zero.addImpulsesChecked params channel.isPre = .ok spiked ∧
      spiked.get channel = (params.get channel).impulse := by
  have nothing : ∀ other, zero.get other = 0 := by
    intro other
    cases other <;> rfl
  refine ⟨_, addImpulsesChecked_eq_ok_iff.mpr ⟨fun other _ => ?_, rfl⟩, ?_⟩
  · have byte := bytes other
    rw [raised, nothing, Bounds.contains_int32_iff]
    omega
  · have top : range.upper = 127 := rfl
    rw [addImpulses, Channels.get_ofFn, if_pos rfl, raised, nothing]
    omega

/-- What is left of an impulse after as many steps as its time constant counts is less than the
impulse exactly if losses are rounded away from zero, or the impulse is not below the time constant,
or stochastic rounding has drawn a number below the impulse for it.  Otherwise the impulse is whole. -/
theorem fades_within_time_constant_iff
    {channel : Channel}
    (bytes : ∀ other, (params.get other).impulse ≤ 255)
    (impulse : 1 ≤ (params.get channel).impulse ∧ (params.get channel).impulse ≤ 127)
    (fades : 1 ≤ (params.get channel).tau)
    (mode : RoundingMode)
    (generator : Generator) :
    ∃ spiked left, zero.addImpulsesChecked params channel.isPre = .ok spiked ∧
      (spiked.decayed params mode (params.get channel).tau generator).1.get channel = left ∧
      0 ≤ left ∧ left ≤ (params.get channel).impulse ∧
      (left < (params.get channel).impulse ↔
        mode = .awayFromZero ∨
        (params.get channel).tau ≤ (params.get channel).impulse ∨
        mode = .stochastic ∧ ∃ call < (params.get channel).tau,
          spiked.drawnAt params mode generator channel call < (params.get channel).impulse) := by
  obtain ⟨positive, small⟩ := impulse
  obtain ⟨spiked, added, start⟩ := exists_addImpulsesChecked_zero bytes small
  have positiveStart : 0 < spiked.get channel := by omega
  have fits : Bounds.int32.Contains (spiked.get channel) := by
    rw [Bounds.contains_int32_iff]
    omega
  have between :=
    get_decayed_between positiveStart.le params mode (params.get channel).tau generator
  have lessThan := get_decayed_lt_iff positiveStart fits fades mode fades generator
  rw [start] at between lessThan
  exact ⟨spiked, _, added, rfl, between.1, between.2, by exact_mod_cast lessThan⟩

/-- An impulse of 100 and a time constant of 20. -/
theorem fades_within_time_constant_iff_steep :
    ∃ params : Channels TraceParams,
      (∀ other, (params.get other).impulse ≤ 255) ∧
      1 ≤ (params.get .x1).impulse ∧ (params.get .x1).impulse ≤ 127 ∧
      1 ≤ (params.get .x1).tau ∧
      ∃ spiked, zero.addImpulsesChecked params true = .ok spiked ∧
        (spiked.decayed params .stochastic 20 (.ofSeed 0)).1.get .x1 < 100 := by
  let params : Channels TraceParams := ⟨⟨100, 20⟩, {}, {}, {}, {}⟩
  have bytes : ∀ other, (params.get other).impulse ≤ 255 := by
    intro other
    cases other <;> decide
  obtain ⟨spiked, left, added, rfl, -, -, lessThan⟩ :=
    fades_within_time_constant_iff bytes (by decide : 1 ≤ (params.get .x1).impulse ∧ _) (by decide)
      .stochastic (.ofSeed 0)
  exact ⟨params, bytes, by decide, by decide, by decide, spiked, added,
    lessThan.mpr (.inr (.inl (by decide)))⟩

/-- An impulse of one and a time constant of two: rounded toward zero, the loss of one half is none,
and two steps leave the impulse as it is. -/
theorem small_impulse_does_not_fade :
    ∃ spiked,
      zero.addImpulsesChecked ⟨⟨1, 2⟩, {}, {}, {}, {}⟩ true = .ok spiked ∧ spiked.get .x1 = 1 ∧
      (spiked.decayed ⟨⟨1, 2⟩, {}, {}, {}, {}⟩ .towardZero 2 (.ofSeed 0)).1.get .x1 = 1 :=
  ⟨_, rfl, rfl, rfl⟩

end Traces

end Neurochip
