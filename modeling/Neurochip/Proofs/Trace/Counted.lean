import Neurochip.Proofs.Failure.Guarded
import Neurochip.Proofs.Rounding.Neighbours
import Neurochip.Trace

namespace Neurochip

/-!
# How far traces can grow

A trace grows with the spikes of its own side of the synapse and fades in
between, in any order.  The main statement bounds every trace by the impulses of
the spikes that it has seen, and says that a trace that never fades counts them
exactly until its register is full.
-/

theorem RoundingMode.decayByRatio_zero (mode : RoundingMode) (value numerator : Int) :
    mode.decayByRatio value numerator 0 = pure value :=
  if_pos (.inl rfl)

namespace Traces

variable {traces : Traces} {params : Channels TraceParams}

/-- The generator that the decay of one trace starts from, after those of the channels before it. -/
def generatorAt
    (traces : Traces)
    (params : Channels TraceParams)
    (mode : RoundingMode)
    (generator : Generator)
    (channel : Channel) :
    Generator :=
  (Channel.all.takeWhile (· ≠ channel)).foldl
    (fun generator earlier =>
      ((mode.decayByRatio (traces.get earlier) 1 (params.get earlier).tau).run generator).2)
    generator

/-- Each trace decays with the time constant of its channel. -/
theorem get_run_decay
    (traces : Traces)
    (params : Channels TraceParams)
    (mode : RoundingMode)
    (generator : Generator)
    (channel : Channel) :
    ((traces.decay params mode).run generator).1.get channel =
      ((mode.decayByRatio (traces.get channel) 1 (params.get channel).tau).run
        (traces.generatorAt params mode generator channel)).1 := by
  cases channel <;> rfl

/-- A call of the traces of one synapse. -/
inductive Call where
  | decay (mode : RoundingMode)
  | preSpike
  | postSpike
  deriving DecidableEq

/-- The traces after a call; an error holds the traces when a sum was no word. -/
def perform (traces : Traces) (params : Channels TraceParams) :
    Call → Draw (Except Traces Traces)
  | .decay mode => .ok <$> traces.decay params mode
  | .preSpike => return traces.addImpulsesChecked params true
  | .postSpike => return traces.addImpulsesChecked params false

/-- The traces after some calls, up to the first with an error. -/
def performAll (traces : Traces) (params : Channels TraceParams) :
    List Call → Draw (Except Traces Traces)
  | [] => return .ok traces
  | call :: rest => do
      match ← traces.perform params call with
      | .ok after => after.performAll params rest
      | .error left => return .error left

end Traces

/-- The call that adds the impulse of a channel. -/
def Channel.spike (channel : Channel) : Traces.Call :=
  if channel.isPre then .preSpike else .postSpike

/-- What a trace can hold after some spikes of its side since it was zero. -/
structure TraceParams.Counts (params : TraceParams) (spikes : Nat) (value : Int) : Prop where
  nonnegative : 0 ≤ value
  atMost : value ≤ min 127 ((params.impulse : Int) * spikes)
  holding : params.tau = 0 → value = min 127 ((params.impulse : Int) * spikes)

namespace TraceParams

variable {params : TraceParams} {spikes : Nat} {value : Int}

theorem counts_zero : params.Counts 0 0 := by
  have nothing : min 127 ((params.impulse : Int) * (0 : Nat)) = 0 := by
    rw [Int.natCast_zero, Int.mul_zero]
    rfl
  exact ⟨Int.le_refl 0, Int.le_of_eq (Eq.symm nothing), fun _ => Eq.symm nothing⟩

/-- A trace that decays has seen no more spikes. -/
theorem Counts.decay
    (counts : params.Counts spikes value)
    (mode : RoundingMode)
    (generator : Generator) :
    params.Counts spikes ((mode.decayByRatio value 1 params.tau).run generator).1 := by
  obtain ⟨nonnegative, atMost, holding⟩ := counts
  have proper : params.tau = 0 ∨ (1 : Int) ≤ params.tau := by omega
  obtain ⟨low, high⟩ := mode.run_decayByRatio_between Int.one_nonneg proper (Int.le_refl 0)
    nonnegative ⟨nonnegative, Int.le_refl value⟩ generator
  refine ⟨low, Int.le_trans high atMost, fun holds => ?_⟩
  rw [holds, RoundingMode.decayByRatio_zero, Draw.run_pure]
  exact holding holds

/-- A trace that takes up an impulse, as far as there is room, has seen one spike more. -/
theorem Counts.raise (counts : params.Counts spikes value) :
    params.Counts (spikes + 1) (min (value + params.impulse) 127) := by
  obtain ⟨nonnegative, atMost, holding⟩ := counts
  have more : (params.impulse : Int) * (spikes + 1 : Nat) =
      params.impulse * spikes + params.impulse := by
    rw [Int.natCast_succ, Int.mul_add, Int.mul_one]
  refine ⟨by omega, by omega, fun holds => ?_⟩
  have before := holding holds
  omega

end TraceParams

namespace Traces

variable {traces : Traces} {params : Channels TraceParams} {spikes : Channel → Nat}

/-- Impulses that fit their registers can always be added. -/
theorem addImpulsesChecked_of_counts
    (counts : ∀ channel, (params.get channel).Counts (spikes channel) (traces.get channel))
    (small : ∀ channel, (params.get channel).impulse ≤ 127)
    (pre : Bool) :
    traces.addImpulsesChecked params pre = .ok (traces.addImpulses params pre) := by
  refine addImpulsesChecked_eq_ok_iff.mpr ⟨fun channel _ => ?_, rfl⟩
  obtain ⟨nonnegative, atMost, -⟩ := counts channel
  have impulse := small channel
  rw [raised, Bounds.contains_int32_iff]
  omega

/-- The traces of the side that has spiked have seen one spike more. -/
theorem counts_addImpulses
    (counts : ∀ channel, (params.get channel).Counts (spikes channel) (traces.get channel))
    (pre : Bool)
    (channel : Channel) :
    (params.get channel).Counts (spikes channel + if channel.isPre = pre then 1 else 0)
      ((traces.addImpulses params pre).get channel) := by
  rw [addImpulses, Channels.get_ofFn]
  split
  · exact (counts channel).raise
  · exact counts channel

/-- A call answers, and each trace has seen one spike more if the call is one of its side. -/
theorem exists_run_perform
    (counts : ∀ channel, (params.get channel).Counts (spikes channel) (traces.get channel))
    (small : ∀ channel, (params.get channel).impulse ≤ 127)
    (call : Call)
    (generator : Generator) :
    ∃ after, ((traces.perform params call).run generator).1 = .ok after ∧
      ∀ channel, (params.get channel).Counts (spikes channel + [call].count channel.spike)
        (after.get channel) := by
  cases call with
  | decay mode =>
      refine ⟨((traces.decay params mode).run generator).1, rfl, fun channel => ?_⟩
      have unspiked : [Call.decay mode].count channel.spike = 0 := by
        cases channel <;> rfl
      rw [unspiked, get_run_decay]
      exact (counts channel).decay mode _
  | preSpike =>
      refine ⟨_, addImpulsesChecked_of_counts counts small true, fun channel => ?_⟩
      have spiked : [Call.preSpike].count channel.spike =
          if channel.isPre = true then 1 else 0 := by
        cases channel <;> rfl
      rw [spiked]
      exact counts_addImpulses counts true channel
  | postSpike =>
      refine ⟨_, addImpulsesChecked_of_counts counts small false, fun channel => ?_⟩
      have spiked : [Call.postSpike].count channel.spike =
          if channel.isPre = false then 1 else 0 := by
        cases channel <;> rfl
      rw [spiked]
      exact counts_addImpulses counts false channel

/-- Calls answer, and each trace has seen those of them that are spikes of its side. -/
theorem exists_run_performAll
    (counts : ∀ channel, (params.get channel).Counts (spikes channel) (traces.get channel))
    (small : ∀ channel, (params.get channel).impulse ≤ 127)
    (calls : List Call)
    (generator : Generator) :
    ∃ after, ((traces.performAll params calls).run generator).1 = .ok after ∧
      ∀ channel, (params.get channel).Counts (spikes channel + calls.count channel.spike)
        (after.get channel) := by
  -- The first call turns the spikes seen so far into those that the others start from.
  induction calls generalizing traces spikes generator with
  | nil => exact ⟨traces, rfl, counts⟩
  | cons call rest inductionHypothesis =>
      obtain ⟨middle, first, countsMiddle⟩ := exists_run_perform counts small call generator
      obtain ⟨after, others, countsAfter⟩ := inductionHypothesis countsMiddle
        ((traces.perform params call).run generator).2
      refine ⟨after, ?_, fun channel => ?_⟩
      · rw [performAll, Draw.run_bind, first]
        exact others
      · have total : (call :: rest).count channel.spike =
            [call].count channel.spike + rest.count channel.spike := by
          rw [← List.count_append, List.singleton_append]
        rw [total, ← Nat.add_assoc]
        exact countsAfter channel

/-- From zero on, calls in any order answer.  A trace holds at most the impulses of the spikes of its
side, and exactly these if it never fades, as far as its register allows; and a spike of one side
changes no trace of the other. -/
theorem traces_count_their_spikes
    (small : ∀ channel, (params.get channel).impulse ≤ 127)
    (calls : List Call)
    (generator : Generator) :
    ∃ after, ((zero.performAll params calls).run generator).1 = .ok after ∧
      (∀ channel,
        (params.get channel).Counts (calls.count channel.spike) (after.get channel)) ∧
      ∀ pre, ∃ next, after.addImpulsesChecked params pre = .ok next ∧
        ∀ channel, channel.isPre ≠ pre → next.get channel = after.get channel := by
  have start : ∀ channel, (params.get channel).Counts 0 (zero.get channel) := by
    intro channel
    cases channel <;> exact TraceParams.counts_zero
  obtain ⟨after, answered, counts⟩ := exists_run_performAll start small calls generator
  simp only [Nat.zero_add] at counts
  refine ⟨after, answered, counts, fun pre => ?_⟩
  refine ⟨_, addImpulsesChecked_of_counts counts small pre, fun channel other => ?_⟩
  rw [addImpulses, Channels.get_ofFn, if_neg other]

/-- A trace that never fades and one that does, after three spikes of one side and one of the
other. -/
theorem traces_count_their_spikes_mixed :
    ∃ params : Channels TraceParams, ∃ after : Traces,
      (∀ channel, (params.get channel).impulse ≤ 127) ∧
      ((zero.performAll params [.preSpike, .decay .stochastic, .preSpike, .postSpike,
        .decay .awayFromZero, .preSpike]).run (.ofSeed 0)).1 = .ok after ∧
      after.x1 = 127 ∧ after.y2 ≤ 7 := by
  let params : Channels TraceParams := ⟨⟨50, 0⟩, {}, {}, ⟨7, 3⟩, {}⟩
  let calls : List Call := [.preSpike, .decay .stochastic, .preSpike, .postSpike,
    .decay .awayFromZero, .preSpike]
  have small : ∀ channel, (params.get channel).impulse ≤ 127 := by
    intro channel
    cases channel <;> decide
  obtain ⟨after, answered, counts, -⟩ := traces_count_their_spikes small calls (.ofSeed 0)
  have three : calls.count Channel.x1.spike = 3 := by decide
  have one : calls.count Channel.y2.spike = 1 := by decide
  have full : after.x1 = min 127 150 := by
    simpa [three, params, Channels.get] using (counts .x1).holding rfl
  have once : after.y2 ≤ min 127 7 := by
    simpa [one, params, Channels.get] using (counts .y2).atMost
  exact ⟨params, after, small, answered, by omega, by omega⟩

end Traces

end Neurochip
