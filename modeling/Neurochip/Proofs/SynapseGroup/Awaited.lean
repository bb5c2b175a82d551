import Neurochip.Proofs.DelayLine.Upcoming
import Neurochip.Proofs.SynapseGroup.Deliveries
import Neurochip.Proofs.SynapseGroup.Step

namespace Neurochip

/-!
# The synapses that spikes on their way will reach

A spike matters to a synapse group only by the synapses of its neuron.  The main
statements follow the positions of these synapses instead of the spikes: those of
the spikes that set out wait for one delay, and those that are due now are as many
as the deliveries.
-/

namespace SynapseGroup

/-- The positions of the synapses of some neurons, neuron by neuron. -/
def positionsFrom (group : SynapseGroup) (neurons : List Nat) : List Nat :=
  neurons.flatMap group.outgoing.lookup

/-- The positions that the spikes on their way will reach in some steps. -/
def awaited (group : SynapseGroup) (ahead : Nat) : List Nat :=
  group.positionsFrom (group.inFlight.upcoming.getD ahead [])

/-- The same once spikes have set out, which arrive after the delay. -/
def awaitedWith (group : SynapseGroup) (spikes : List Nat) (ahead : Nat) : List Nat :=
  group.awaited ahead ++ if ahead = group.params.delay then group.positionsFrom spikes else []

variable {group other : SynapseGroup}

/-- The positions of synapses depend on the wiring only. -/
theorem positionsFrom_of_wiring
    (same : other.wiring = group.wiring)
    (neurons : List Nat) :
    other.positionsFrom neurons = group.positionsFrom neurons := by
  have outgoing : other.outgoing = group.outgoing := congrArg Wiring.outgoing same
  rw [positionsFrom, outgoing, positionsFrom]

/-- Whether the delay line is long enough depends on the wiring only. -/
theorem withinReach_of_wiring
    (same : other.wiring = group.wiring)
    (within : group.params.delay < group.inFlight.length) :
    other.params.delay < other.inFlight.length := by
  have params : other.params = group.params := congrArg Wiring.params same
  have reach : other.inFlight.length = group.inFlight.length := congrArg Wiring.reach same
  rwa [params, reach]

theorem positionsFrom_append (first second : List Nat) :
    group.positionsFrom (first ++ second) =
      group.positionsFrom first ++ group.positionsFrom second :=
  List.flatMap_append

/-- Neurons without synapses have no positions. -/
theorem positionsFrom_eq_nil_iff (indexed : group.wiring.Indexed) {neurons : List Nat} :
    group.positionsFrom neurons = [] ↔ ∀ synapse ∈ group.synapses, synapse.pre ∉ neurons := by
  rw [positionsFrom, List.flatMap_eq_nil_iff]
  simp only [List.eq_nil_iff_forall_not_mem, mem_lookup_outgoing indexed]
  constructor
  · intro nothing synapse member spikes
    obtain ⟨position, found⟩ := Array.mem_iff_getElem?.mp member
    exact nothing synapse.pre spikes position ⟨synapse, found, rfl⟩
  · rintro nothing neuron spikes position ⟨synapse, found, rfl⟩
    exact nothing synapse (Array.mem_of_getElem? found) spikes

/-- With spikes that have just set out, the delay line holds what is then awaited. -/
theorem positionsFrom_scheduled
    (within : group.params.delay < group.inFlight.length)
    (spikes : List Nat)
    (ahead : Nat) :
    group.positionsFrom
        ((group.inFlight.schedule group.params.delay spikes).upcoming.getD ahead []) =
      group.awaitedWith spikes ahead := by
  rw [DelayLine.getD_upcoming_schedule _ _ within, positionsFrom_append, awaitedWith, awaited]
  split <;> rfl

/-- The arriving spikes reach what is awaited now. -/
theorem positionsFrom_arriving
    (within : group.params.delay < group.inFlight.length)
    (spikes : List Nat) :
    group.positionsFrom (group.arriving spikes) = group.awaitedWith spikes 0 := by
  rw [← positionsFrom_scheduled within, arriving, DelayLine.drain_fst_eq]

/-- After a step everything is awaited one step earlier. -/
theorem awaited_stepped
    (within : group.params.delay < group.inFlight.length)
    (stimulus : Stimulus)
    (mode : RoundingMode)
    (ahead : Nat) :
    (group.stepped stimulus mode).2.awaited ahead =
      group.awaitedWith stimulus.spikes (ahead + 1) := by
  rw [awaited, positionsFrom_of_wiring (wiring_stepped group stimulus mode), inFlight_stepped,
    DelayLine.getD_upcoming_drain, positionsFrom_scheduled within]

/-- Where all synapses end at neurons of the target, all awaited positions are delivered to. -/
theorem length_transmit
    (indexed : group.wiring.Indexed)
    (within : group.params.delay < group.inFlight.length)
    {targets : Nat}
    (inside : ∀ synapse ∈ group.synapses.toList, synapse.post < targets)
    (spikes : List Nat) :
    (group.transmit spikes targets).1.length = (group.awaitedWith spikes 0).length := by
  have all : group.reachedPositions spikes targets = group.awaitedWith spikes 0 := by
    rw [reachedPositions, ← positionsFrom_arriving within, positionsFrom, List.filter_eq_self]
    intro position member
    obtain ⟨neuron, _, looked⟩ := List.mem_flatMap.mp member
    obtain ⟨synapse, found, _⟩ := (mem_lookup_outgoing indexed).mp looked
    rw [reaches, found]
    exact decide_eq_true (inside synapse (mem_toList_of_getElem? found))
  rw [transmit_eq, ← all, reachedPositions, length_filterMap_delivery?]

end SynapseGroup

end Neurochip
