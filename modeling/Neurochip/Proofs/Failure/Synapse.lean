import Neurochip.Proofs.Failure.Rounding
import Neurochip.Proofs.Failure.Weight
import Neurochip.Proofs.SynapseGroup.Registers

namespace Neurochip

/-!
# Traces and weights of a synapse do not fail

A trace of seven bits and an impulse of seven bits add up in a word of 32 bits,
and a mantissa and its rounded change in a word of 64 bits that saturates.
-/

namespace Traces

/-- One step of decay, channel after channel, computed in words. -/
def decayGuarded
    (traces : Traces)
    (params : Channels TraceParams)
    (mode : RoundingMode) :
    Guarded Traces := do
  let x1 ← mode.decayByRatioGuarded traces.x1 1 params.x1.tau
  let x2 ← mode.decayByRatioGuarded traces.x2 1 params.x2.tau
  let y1 ← mode.decayByRatioGuarded traces.y1 1 params.y1.tau
  let y2 ← mode.decayByRatioGuarded traces.y2 1 params.y2.tau
  let y3 ← mode.decayByRatioGuarded traces.y3 1 params.y3.tau
  return ⟨x1, x2, y1, y2, y3⟩

/-- Adds the impulses of one side, each sum computed in a word of 32 bits. -/
def addImpulsesGuarded (traces : Traces) (params : Channels TraceParams) (pre : Bool) :
    Except Failure Traces :=
  match traces.addImpulsesChecked params pre with
  | .ok after => .ok after
  | .error _ => .error .overflow

variable {traces : Traces} {params : Channels TraceParams}

/-- Traces in range decay without failure. -/
theorem InRange.agrees_decay
    (inRange : traces.InRange)
    (params : Channels TraceParams)
    (mode : RoundingMode) :
    Guarded.Agrees (traces.decayGuarded params mode) (traces.decay params mode) := by
  have each : ∀ channel tau,
      Guarded.Agrees (mode.decayByRatioGuarded (traces.get channel) 1 (tau : Nat))
        (mode.decayByRatio (traces.get channel) 1 tau) := by
    intro channel tau
    obtain ⟨lower, upper⟩ := inRange channel
    simp only [range] at lower upper
    have fits : Bounds.int32.Contains (traces.get channel) := by
      rw [Bounds.contains_int32_iff]
      omega
    have small : 1 ≤ 65535 := by decide
    exact mode.agrees_decayByRatio fits small tau
  unfold decayGuarded Traces.decay
  refine (each .x1 _).bind fun _ => (each .x2 _).bind fun _ => ?_
  refine (each .y1 _).bind fun _ => (each .y2 _).bind fun _ => ?_
  exact (each .y3 _).bind fun _ => Guarded.agrees_pure _

/-- Impulses of seven bits are added to traces in range without failure. -/
theorem InRange.addImpulsesGuarded_eq
    (inRange : traces.InRange)
    (small : ∀ channel, (params.get channel).impulse ≤ 127)
    (pre : Bool) :
    traces.addImpulsesGuarded params pre = .ok (traces.addImpulses params pre) := by
  have fits : ∀ channel, channel.isPre = pre →
      Bounds.int32.Contains (traces.raised params channel) := by
    intro channel _
    obtain ⟨lower, upper⟩ := inRange channel
    have impulse := small channel
    simp only [range] at lower upper
    rw [Bounds.contains_int32_iff, raised]
    omega
  rw [addImpulsesGuarded, addImpulsesChecked_eq_ok_iff.mpr ⟨fits, rfl⟩]

/-- The impulses of one side leave traces in range. -/
theorem InRange.addImpulses
    (inRange : traces.InRange)
    (params : Channels TraceParams)
    (pre : Bool) :
    InRange (traces.addImpulses params pre) := by
  intro channel
  obtain ⟨lower, upper⟩ := inRange channel
  have zero : range.lower = 0 := rfl
  have top : range.upper = 127 := rfl
  rw [Traces.addImpulses, Channels.get_ofFn]
  split
  · rw [raised]
    exact ⟨by omega, by omega⟩
  · exact ⟨lower, upper⟩

end Traces

namespace Synapse

/-- The synapse after one step of trace decay, computed in words. -/
def decayTracesGuarded
    (synapse : Synapse)
    (params : Channels TraceParams)
    (mode : RoundingMode) :
    Guarded Synapse := do
  let traces ← synapse.traces.decayGuarded params mode
  return { synapse with traces := traces }

/-- The synapse after the impulses of this step's spikes, computed in words. -/
def addImpulsesGuarded (synapse : Synapse) (params : Channels TraceParams) :
    Except Failure Synapse := do
  let raised ←
    if synapse.arrived then
      synapse.traces.addImpulsesGuarded params true
    else
      pure synapse.traces
  let traces ← if synapse.spiked then raised.addImpulsesGuarded params false else pure raised
  return { synapse with traces := traces }

/-- The weight after a change, which is first rounded to a grid; the sum stays at the end of the
words of 64 bits if it would not fit. -/
def changedWeightGuarded
    (synapse : Synapse)
    (quantizer : Quantizer)
    (mode : RoundingMode)
    (precision change : Int) :
    Guarded Weight := do
  let rounded ← mode.roundToMultipleGuarded change precision
  quantizer.quantizeGuarded (Bounds.int64.clamp (synapse.weight.mantissa + rounded))

/-- What keeps a saved state from being that of the synapse, where a mantissa in range is stored
for comparison. -/
def violationsGuarded
    (synapse : Synapse)
    (quantizer : Quantizer)
    (position : Nat)
    (state : SynapseState) :
    Except Failure (List Violation) := do
  if quantizer.signMode.range.Contains state.mantissa then
    let _ ← quantizer.quantizeGuarded state.mantissa
  return synapse.violations quantizer position state

variable {synapse : Synapse}

theorem agrees_decayTraces
    (inRange : synapse.traces.InRange)
    (params : Channels TraceParams)
    (mode : RoundingMode) :
    Guarded.Agrees (synapse.decayTracesGuarded params mode) (synapse.decayTraces params mode) :=
  (inRange.agrees_decay params mode).bind fun _ => Guarded.agrees_pure _

/-- The impulses of a step are added without failure. -/
theorem addImpulsesGuarded_eq
    {params : Channels TraceParams}
    (inRange : synapse.traces.InRange)
    (small : ∀ channel, (params.get channel).impulse ≤ 127) :
    synapse.addImpulsesGuarded params = .ok (synapse.addImpulses params) := by
  have raised := inRange.addImpulses params true
  unfold addImpulsesGuarded addImpulses Traces.onPreSpike Traces.onPostSpike
  cases synapse.arrived <;> cases synapse.spiked <;>
    simp [inRange.addImpulsesGuarded_eq small, raised.addImpulsesGuarded_eq small, bind,
      Except.bind, pure, Except.pure]

theorem inRange_addImpulses
    (inRange : synapse.traces.InRange)
    (params : Channels TraceParams) :
    (synapse.addImpulses params).traces.InRange := by
  rw [addImpulses_eq]
  exact inRange.raisedBy params synapse.arrived synapse.spiked

/-- A change that is a word of 64 bits is applied to a weight without failure. -/
theorem agrees_changedWeight
    {quantizer : Quantizer}
    (supported : -8 ≤ quantizer.exponent ∧ quantizer.exponent ≤ 7)
    {change : Int}
    (fits : Bounds.int64.Contains change)
    (synapse : Synapse)
    (mode : RoundingMode) :
    Guarded.Agrees (synapse.changedWeightGuarded quantizer mode quantizer.precision change)
      (synapse.changedWeight quantizer mode change) :=
  (mode.agrees_roundToMultiple fits quantizer.precision).bind fun _ =>
    Guarded.agrees_lift (quantizer.quantizeGuarded_eq supported _)

/-- A saved state is checked without failure. -/
theorem violationsGuarded_eq
    {quantizer : Quantizer}
    (supported : -8 ≤ quantizer.exponent ∧ quantizer.exponent ≤ 7)
    (synapse : Synapse)
    (position : Nat)
    (state : SynapseState) :
    synapse.violationsGuarded quantizer position state =
      .ok (synapse.violations quantizer position state) := by
  unfold violationsGuarded
  split
  · rw [Quantizer.quantizeGuarded_eq supported]
    rfl
  · rfl

end Synapse

end Neurochip
