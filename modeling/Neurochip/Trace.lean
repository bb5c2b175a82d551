import Neurochip.FixedPoint

namespace Neurochip

/-!
# Synaptic traces

Each synapse remembers recent spikes in five trace registers of seven bits: two
for spikes that arrive from its source and three for spikes of its target.  A
spike adds an impulse to its own traces; every step each trace decays with its
own time constant.
-/

/-- The five traces of a synapse. -/
inductive Channel where
  | x1
  | x2
  | y1
  | y2
  | y3
  deriving Repr, DecidableEq, Inhabited

namespace Channel

/-- All channels, in register order. -/
def all : List Channel :=
  [x1, x2, y1, y2, y3]

/-- The name under which learning rules and requests refer to a channel. -/
def name : Channel → String
  | x1 => "x1"
  | x2 => "x2"
  | y1 => "y1"
  | y2 => "y2"
  | y3 => "y3"

/-- The name of a channel as a value in messages. -/
def title : Channel → String
  | x1 => "X1"
  | x2 => "X2"
  | y1 => "Y1"
  | y2 => "Y2"
  | y3 => "Y3"

/-- The channel with the given name. -/
def ofName? (name : String) : Option Channel :=
  all.find? (·.name == name)

/-- Whether a channel follows the spikes of the source, and not those of the target. -/
def isPre : Channel → Bool
  | x1 => true
  | x2 => true
  | y1 => false
  | y2 => false
  | y3 => false

/-- The channels that follow the spikes of the source, or those that follow the target. -/
def ofSide (pre : Bool) : List Channel :=
  all.filter (·.isPre == pre)

/-- A channel belongs to exactly one side. -/
@[simp] theorem mem_ofSide {channel : Channel} {pre : Bool} :
    channel ∈ ofSide pre ↔ channel.isPre = pre := by
  cases channel <;> cases pre <;> decide

end Channel

/-- One value for each channel. -/
structure Channels (α : Type) where
  x1 : α
  x2 : α
  y1 : α
  y2 : α
  y3 : α
  deriving Repr, DecidableEq, Inhabited

namespace Channels

/-- The value of one channel. -/
def get (values : Channels α) : Channel → α
  | .x1 => values.x1
  | .x2 => values.x2
  | .y1 => values.y1
  | .y2 => values.y2
  | .y3 => values.y3

/-- The values that a function gives to the channels. -/
def ofFn (value : Channel → α) : Channels α :=
  ⟨value .x1, value .x2, value .y1, value .y2, value .y3⟩

/-- The values in register order. -/
def toList (values : Channels α) : List α :=
  [values.x1, values.x2, values.y1, values.y2, values.y3]

/-- The values with that of one channel replaced. -/
def set (values : Channels α) (channel : Channel) (value : α) : Channels α :=
  ofFn fun other => if other = channel then value else values.get other

/-- Reading from a function's values gives back the function. -/
@[simp] theorem get_ofFn (value : Channel → α) (channel : Channel) :
    (ofFn value).get channel = value channel := by
  cases channel <;> rfl

/-- Values that agree on every channel are equal. -/
theorem ext_get
    {left right : Channels α}
    (agree : ∀ channel, left.get channel = right.get channel) :
    left = right := by
  cases left
  cases right
  exact (Channels.mk.injEq ..).mpr
    ⟨agree .x1, agree .x2, agree .y1, agree .y2, agree .y3⟩

end Channels

/-- What a spike adds to a trace, and the steps in which the trace fades. -/
structure TraceParams where
  impulse : Nat := 0
  /-- Zero holds the trace forever. -/
  tau : Nat := 0
  deriving Repr, DecidableEq, Inhabited

/-- The trace registers of one synapse. -/
abbrev Traces : Type :=
  Channels Int

namespace Traces

/-- The range of a trace register. -/
def range : Bounds :=
  { lower := 0, upper := 127 }

/-- Registers that have seen no spike. -/
def zero : Traces :=
  ⟨0, 0, 0, 0, 0⟩

/-- Writes a register, staying in its range. -/
def write (traces : Traces) (channel : Channel) (value : Int) : Traces :=
  traces.set channel (range.clamp value)

/-- One step of decay, channel after channel. -/
def decay
    (traces : Traces)
    (params : Channels TraceParams)
    (mode : RoundingMode) :
    Draw Traces := do
  let x1 ← mode.decayByRatio traces.x1 1 params.x1.tau
  let x2 ← mode.decayByRatio traces.x2 1 params.x2.tau
  let y1 ← mode.decayByRatio traces.y1 1 params.y1.tau
  let y2 ← mode.decayByRatio traces.y2 1 params.y2.tau
  let y3 ← mode.decayByRatio traces.y3 1 params.y3.tau
  return ⟨x1, x2, y1, y2, y3⟩

/-- A trace with the impulse of its channel, before it is limited to its register. -/
def raised (traces : Traces) (params : Channels TraceParams) (channel : Channel) : Int :=
  traces.get channel + (params.get channel).impulse

/-- Adds the impulses of the channels that belong to one side of the synapse. -/
def addImpulses (traces : Traces) (params : Channels TraceParams) (pre : Bool) : Traces :=
  .ofFn fun channel =>
    if channel.isPre = pre then
      min (traces.raised params channel) range.upper
    else
      traces.get channel

/-- Adds the impulses of some channels in order, up to the first whose sum is no word of 32 bits. -/
def addImpulsesInOrder (traces : Traces) (params : Channels TraceParams) :
    List Channel → Except Traces Traces
  | [] => .ok traces
  | channel :: rest =>
      if Bounds.int32.Contains (traces.raised params channel) then
        addImpulsesInOrder
          (traces.set channel (min (traces.raised params channel) range.upper)) params rest
      else
        .error traces

/--
Adds the impulses of one side.  If a sum is no word of 32 bits, the error holds
the traces with the impulses of the channels before it.
-/
def addImpulsesChecked (traces : Traces) (params : Channels TraceParams) (pre : Bool) :
    Except Traces Traces :=
  traces.addImpulsesInOrder params (Channel.ofSide pre)

/-- Impulses of different channels are all added exactly when all sums are words of 32 bits. -/
private theorem addImpulsesInOrder_eq_ok_iff
    {traces after : Traces}
    {params : Channels TraceParams}
    {channels : List Channel}
    (different : channels.Nodup) :
    traces.addImpulsesInOrder params channels = .ok after ↔
      (∀ channel ∈ channels, Bounds.int32.Contains (traces.raised params channel)) ∧
      after = .ofFn fun channel =>
        if channel ∈ channels then
          min (traces.raised params channel) range.upper
        else
          traces.get channel := by
  induction channels generalizing traces with
  | nil =>
      have same : Channels.ofFn traces.get = traces := Channels.ext_get (by simp)
      simp [addImpulsesInOrder, same, eq_comm]
  | cons first rest inductionHypothesis =>
      obtain ⟨absent, different⟩ := List.nodup_cons.mp different
      by_cases fits : Bounds.int32.Contains (traces.raised params first)
      · rw [addImpulsesInOrder, if_pos fits, inductionHypothesis different]
        have kept : ∀ channel ∈ rest, ∀ value,
            raised (traces.set first value) params channel = traces.raised params channel := by
          intro channel member value
          have other : channel ≠ first := fun equal => absent (equal ▸ member)
          simp [raised, Channels.set, other]
        simp only [List.mem_cons, forall_eq_or_imp, fits, true_and]
        refine and_congr (forall₂_congr fun channel member => by rw [kept channel member]) ?_
        suffices same : ∀ channel,
            (if channel ∈ rest then
              min (raised (traces.set first (min (traces.raised params first) range.upper))
                params channel) range.upper
            else
              (traces.set first (min (traces.raised params first) range.upper)).get channel) =
            (if channel = first ∨ channel ∈ rest then
              min (traces.raised params channel) range.upper
            else
              traces.get channel) by
          rw [funext same]
        intro channel
        by_cases member : channel ∈ rest
        · simp [member, kept channel member]
        · by_cases equal : channel = first
          · subst equal
            simp [member, Channels.set]
          · simp [member, equal, Channels.set]
      · simp [addImpulsesInOrder, fits]

/-- All impulses of one side are added exactly when all their sums are words of 32 bits. -/
theorem addImpulsesChecked_eq_ok_iff
    {traces after : Traces}
    {params : Channels TraceParams}
    {pre : Bool} :
    traces.addImpulsesChecked params pre = .ok after ↔
      (∀ channel, channel.isPre = pre →
        Bounds.int32.Contains (traces.raised params channel)) ∧
      after = traces.addImpulses params pre := by
  have different : (Channel.ofSide pre).Nodup := by
    cases pre <;> decide
  rw [addImpulsesChecked, addImpulsesInOrder_eq_ok_iff different]
  simp [addImpulses]

/-- The traces after a spike of the source has arrived. -/
def onPreSpike (traces : Traces) (params : Channels TraceParams) : Traces :=
  traces.addImpulses params true

/-- The traces after a spike of the target. -/
def onPostSpike (traces : Traces) (params : Channels TraceParams) : Traces :=
  traces.addImpulses params false

end Traces

end Neurochip
