import Neurochip.Error
import Neurochip.Params.Validation

namespace Neurochip

/-!
# Spike sources

A spike source plays back a list of events in order of time, either once or
again and again with a fixed period.  It finds the first event that is due by a
binary search: `partitionPoint` halves a window of the events until one is left.
A source that is trusted to list its events in order is not checked for it; in
events out of order the search finds some event or other.
-/

/--
Where a window of some items starts once it has been halved until a single item
is left.  The half from the middle on is kept if the item in the middle is
before the point that is searched.  A step for each item is more than enough.
-/
def narrow (before : α → Bool) (items : List α) : Nat → Nat → Nat → Nat
  | 0, start, _ => start
  | steps + 1, start, size =>
      if size ≤ 1 then
        start
      else
        let half := size / 2
        let middle := start + half
        let kept := if items[middle]?.any before then middle else start
        narrow before items steps kept (size - half)

/-- The number of items before a point, found by a binary search. -/
def partitionPoint (before : α → Bool) (items : List α) : Nat :=
  let last := narrow before items items.length 0 items.length
  if items[last]?.any before then last + 1 else last

/-- A source with the spikes it emitted last. -/
structure SpikeSource where
  size : Nat
  period : Nat
  events : List SpikeEvent
  lastSpikes : List Nat
  deriving Repr, DecidableEq

namespace SpikeSource

/-- A source that has not emitted anything yet. -/
def ofParams (params : SpikeSourceParams) : SpikeSource :=
  { size := params.size
    period := params.period
    events := params.events
    lastSpikes := [] }

/-- A source that has not emitted anything yet, if its parameters are acceptable. -/
def create (params : SpikeSourceParams) : Except Refusal SpikeSource := do
  Refusal.checkLengths .events params.indices.length params.times.length
  Refusal.checkValid (params.violations [])
  return ofParams params

/-- The time within the pattern that belongs to a time of the run. -/
def localTime (source : SpikeSource) (time : Nat) : Nat :=
  if source.period = 0 then time else time % source.period

/-- The indices of the events due at a time, in event order. -/
def dueAt (source : SpikeSource) (time : Nat) : List Nat :=
  let now := source.localTime time
  let reached := source.events.drop (partitionPoint (·.time < now) source.events)
  (reached.takeWhile (·.time == now)).map (·.index)

/-- The source after it has emitted the spikes of a time. -/
def emit (source : SpikeSource) (time : Nat) : SpikeSource :=
  { source with lastSpikes := source.dueAt time }

end SpikeSource

end Neurochip
