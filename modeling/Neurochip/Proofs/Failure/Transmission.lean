import Neurochip.Proofs.Failure.DelayLine
import Neurochip.Proofs.Failure.Guarded
import Neurochip.Proofs.NeuronGroup.Frame
import Neurochip.Proofs.SynapseGroup.Deliveries

namespace Neurochip

/-!
# Transmission does not fail

Every spike that arrives adds one actual weight, of 21 bits and a sign, to the
input of one neuron.  The inputs after a number of transmissions are therefore
bounded by this number times the largest weight, and up to 2^41 transmissions
they stay below 2^62.
-/

/-- The number of transmissions, 2^41, from which on sums of weights might not fit. -/
def transmissionLimit : Nat := 2199023255552

namespace Delivery

/-- The inputs are what at most the given number of deliveries can add up to. -/
def Collected (count : Nat) (input : Array Int) : Prop :=
  ∀ value ∈ input.toList, -(2097088 * (count : Int)) ≤ value ∧ value ≤ 2097088 * (count : Int)

/-- A delivery whose amount is an actual weight. -/
def IsWeight (delivery : Delivery) : Prop :=
  Quantizer.actualRange.Contains delivery.amount

theorem collected_zero (neurons : Nat) : Collected 0 (Array.replicate neurons 0) := by
  intro value member
  rw [Array.toList_replicate] at member
  rw [List.eq_of_mem_replicate member]
  decide

/-- One more delivery. -/
theorem Collected.deliver
    {count : Nat}
    {input : Array Int}
    (collected : Collected count input)
    {delivery : Delivery}
    (isWeight : delivery.IsWeight) :
    Collected (count + 1) (input.modify delivery.neuron (· + delivery.amount)) := by
  obtain ⟨lower, upper⟩ := isWeight
  simp only [Quantizer.actualRange] at lower upper
  intro value member
  obtain ⟨neuron, place⟩ := List.mem_iff_getElem?.mp member
  rw [Array.getElem?_toList, Array.getElem?_modify] at place
  split at place
  · obtain ⟨before, found, rfl⟩ := Option.map_eq_some_iff.mp place
    have bounded := collected before (mem_toList_of_getElem? found)
    omega
  · have bounded := collected value (mem_toList_of_getElem? place)
    omega

/-- Several more deliveries. -/
theorem Collected.addAll
    {count : Nat}
    {input : Array Int}
    (collected : Collected count input)
    {deliveries : List Delivery}
    (areWeights : ∀ delivery ∈ deliveries, delivery.IsWeight) :
    Collected (count + deliveries.length) (Delivery.addAll deliveries input) := by
  induction deliveries generalizing count input with
  | nil => exact collected
  | cons delivery rest inductionHypothesis =>
      obtain ⟨isWeight, areWeights⟩ := List.forall_mem_cons.mp areWeights
      have later := inductionHypothesis (collected.deliver isWeight) areWeights
      rw [List.length_cons, ← Nat.add_assoc, Nat.add_right_comm]
      exact later

/-- What some deliveries can add up to, more deliveries can as well. -/
theorem Collected.mono
    {few many : Nat}
    (fewer : few ≤ many)
    {input : Array Int}
    (collected : Collected few input) :
    Collected many input := by
  intro value member
  have bounded := collected value member
  omega

end Delivery

namespace SynapseGroup

/-- Records an event at the synapse with the given position, which is touched by it. -/
def markGuarded
    (event : Synapse → Synapse)
    (marked : Array Synapse × Array Nat)
    (position : Nat) :
    Except Failure (Array Synapse × Array Nat) := do
  let synapse ← Guard.elementAt marked.1 position
  return (marked.1.setIfInBounds position (event synapse),
    if synapse.isTouched then marked.2 else marked.2.push position)

/-- The inputs of a target, and the marked and touched synapses, in the middle of a transmission. -/
structure Transmission where
  input : Array Int
  marked : Array Synapse × Array Nat
  count : Nat

/-- Lets a spike pass the synapse with the given position, if its neuron is one of the target. -/
def deliverGuarded (transmission : Transmission) (position : Nat) :
    Except Failure Transmission := do
  let synapse ← Guard.elementAt transmission.marked.1 position
  match transmission.input[synapse.post]? with
  | none => return transmission
  | some input => do
      let sum ← Guard.word .int64 (input + synapse.weight.actual)
      let marked ← markGuarded Synapse.arrive transmission.marked position
      return {
        input := transmission.input.setIfInBounds synapse.post sum
        marked := marked
        count := transmission.count + 1 }

/-- Sends spikes on their way and adds those that arrive now to the inputs of the target, with the
number of those that do. -/
def transmitGuarded (group : SynapseGroup) (spikes : List Nat) (input : Array Int) :
    Except Failure (Nat × Array Int × SynapseGroup) := do
  let scheduled ← spikes.foldlM
    (fun line spike => line.scheduleGuarded group.params.delay spike) group.inFlight
  let (arriving, inFlight) ← scheduled.drainGuarded
  let reached ← (arriving.flatMap group.outgoing.lookup).foldlM deliverGuarded
    { input := input, marked := (group.synapses, group.touched), count := 0 }
  return (reached.count, reached.input,
    { group with
      inFlight := inFlight
      synapses := reached.marked.1
      touched := reached.marked.2 })

/-- Marking an existing synapse does not fail. -/
theorem markGuarded_eq
    (event : Synapse → Synapse)
    {synapses : Array Synapse}
    {position : Nat}
    {synapse : Synapse}
    (found : synapses[position]? = some synapse)
    (touched : Array Nat) :
    markGuarded event (synapses, touched) position =
      .ok (markAll event [position] synapses touched) := by
  unfold markGuarded
  rw [bind_of_eq_ok (Guard.elementAt_of_some found), Guard.setIfInBounds_eq_modify found event]
  simp only [markAll, found]
  rfl

/-- Synapses are marked one after the other. -/
theorem markAll_append
    (event : Synapse → Synapse)
    (first second : List Nat)
    (synapses : Array Synapse)
    (touched : Array Nat) :
    markAll event (first ++ second) synapses touched =
      markAll event second (markAll event first synapses touched).1
        (markAll event first synapses touched).2 := by
  induction first generalizing synapses touched with
  | nil => rfl
  | cons position rest inductionHypothesis =>
      simp only [List.cons_append, markAll]
      split
      · exact inductionHypothesis _ _
      · exact inductionHypothesis _ _

theorem size_markAll
    {event : Synapse → Synapse}
    (positions : List Nat)
    (synapses : Array Synapse)
    (touched : Array Nat) :
    (markAll event positions synapses touched).1.size = synapses.size := by
  have keepsNothing : Synapse.Keeps (fun _ => ()) event := fun _ => rfl
  simpa using congrArg List.length (map_markAll keepsNothing positions synapses touched)

/-- Marking existing synapses does not fail. -/
theorem foldlM_markGuarded
    (event : Synapse → Synapse)
    {positions : List Nat}
    {synapses : Array Synapse}
    (inside : ∀ position ∈ positions, position < synapses.size)
    (touched : Array Nat) :
    positions.foldlM (markGuarded event) (synapses, touched) =
      .ok (markAll event positions synapses touched) := by
  induction positions generalizing synapses touched with
  | nil => rfl
  | cons position rest inductionHypothesis =>
      obtain ⟨here, later⟩ := List.forall_mem_cons.mp inside
      obtain ⟨synapse, found⟩ := Guard.exists_element here
      have stillInside : ∀ other ∈ rest,
          other < (markAll event [position] synapses touched).1.size := by
        intro other member
        rw [size_markAll]
        exact later other member
      rw [List.foldlM_cons, bind_of_eq_ok (markGuarded_eq event found touched),
        inductionHypothesis stillInside]
      exact congrArg Except.ok (markAll_append event [position] rest synapses touched).symm

variable {group : SynapseGroup}

/-- The transmission after spikes have passed the given synapses of a group. -/
def Transmission.pass
    (transmission : Transmission)
    (group : SynapseGroup)
    (reached : List Nat) :
    Transmission :=
  { input := Delivery.addAll (reached.filterMap group.delivery?) transmission.input
    marked := markAll Synapse.arrive reached transmission.marked.1 transmission.marked.2
    count := transmission.count + reached.length }

/-- The synapses of a transmission deliver what those of the group did before. -/
def Transmission.Of (transmission : Transmission) (group : SynapseGroup) : Prop :=
  transmission.marked.1.toList.map Synapse.delivery = group.synapses.toList.map Synapse.delivery

/-- A synapse of a transmission is found at its position in the group. -/
theorem Transmission.Of.delivery?_eq
    {transmission : Transmission}
    (ofGroup : transmission.Of group)
    {position : Nat}
    {synapse : Synapse}
    (found : transmission.marked.1[position]? = some synapse) :
    group.delivery? position = some synapse.delivery := by
  have place := congrArg (·[position]?) ofGroup
  simp only [List.getElem?_map, Array.getElem?_toList, found, Option.map_some] at place
  exact place.symm

/-- The synapses of a transmission deliver actual weights if those of the group do. -/
theorem Transmission.Of.isWeight
    {transmission : Transmission}
    (ofGroup : transmission.Of group)
    (areWeights : ∀ synapse ∈ group.synapses.toList, synapse.delivery.IsWeight)
    {position : Nat}
    {synapse : Synapse}
    (found : transmission.marked.1[position]? = some synapse) :
    synapse.delivery.IsWeight := by
  obtain ⟨before, place, same⟩ := Option.map_eq_some_iff.mp (ofGroup.delivery?_eq found)
  have isWeight := areWeights before
    (mem_toList_of_getElem? place)
  rwa [← show before.delivery = synapse.delivery from same]

theorem reaches_of_delivery?
    {position : Nat}
    {delivery : Delivery}
    (delivers : group.delivery? position = some delivery)
    (targets : Nat) :
    group.reaches targets position = decide (delivery.neuron < targets) := by
  obtain ⟨synapse, found, rfl⟩ := Option.map_eq_some_iff.mp delivers
  rw [reaches, found]

theorem areWeights_filterMap
    (areWeights : ∀ synapse ∈ group.synapses.toList, synapse.delivery.IsWeight)
    (positions : List Nat) :
    ∀ delivery ∈ positions.filterMap group.delivery?, delivery.IsWeight := by
  intro delivery member
  obtain ⟨position, _, delivers⟩ := List.mem_filterMap.mp member
  obtain ⟨synapse, found, rfl⟩ := Option.map_eq_some_iff.mp delivers
  exact areWeights synapse (mem_toList_of_getElem? found)

theorem Transmission.pass_append
    (transmission : Transmission)
    (group : SynapseGroup)
    (first second : List Nat) :
    transmission.pass group (first ++ second) =
      (transmission.pass group first).pass group second := by
  simp only [pass, List.filterMap_append, Delivery.addAll_append, markAll_append,
    List.length_append, Nat.add_assoc]

/-- Spikes that pass leave what the synapses deliver alone. -/
theorem Transmission.Of.pass
    {transmission : Transmission}
    (ofGroup : transmission.Of group)
    (reached : List Nat) :
    (transmission.pass group reached).Of group := by
  have keeps : Synapse.Keeps Synapse.delivery Synapse.arrive := fun _ => rfl
  exact (map_markAll keeps _ _ _).trans ofGroup

/-- A spike passes a synapse without failure as long as few spikes have been delivered before. -/
theorem Transmission.Of.deliverGuarded_eq
    {transmission : Transmission}
    (ofGroup : transmission.Of group)
    {position : Nat}
    (inside : position < group.size)
    (areWeights : ∀ synapse ∈ group.synapses.toList, synapse.delivery.IsWeight)
    {before : Nat}
    (collected : Delivery.Collected before transmission.input)
    (few : before < transmissionLimit) :
    deliverGuarded transmission position =
      .ok (transmission.pass group
        ([position].filter (group.reaches transmission.input.size))) := by
  have sameSize : transmission.marked.1.size = group.size := by
    simpa [size] using congrArg List.length ofGroup
  obtain ⟨synapse, found⟩ := Guard.exists_element (sameSize ▸ inside)
  have delivers := ofGroup.delivery?_eq found
  have reaches := reaches_of_delivery? delivers transmission.input.size
  unfold deliverGuarded
  rw [bind_of_eq_ok (Guard.elementAt_of_some found)]
  cases place : transmission.input[synapse.post]? with
  | none =>
      have far : transmission.input.size ≤ synapse.delivery.neuron :=
        Array.getElem?_eq_none_iff.mp place
      rw [List.filter_cons_of_neg (by simp [reaches, far]), List.filter_nil]
      rfl
  | some input =>
      obtain ⟨near, _⟩ := Array.getElem?_eq_some_iff.mp place
      have near : synapse.delivery.neuron < transmission.input.size := near
      have isWeight := ofGroup.isWeight areWeights found
      have bounded := collected input (mem_toList_of_getElem? place)
      have sumFits : Bounds.int64.Contains (input + synapse.weight.actual) := by
        obtain ⟨lower, upper⟩ := isWeight
        simp only [Quantizer.actualRange, Synapse.delivery] at lower upper
        rw [transmissionLimit] at few
        rw [Bounds.contains_int64_iff]
        omega
      dsimp only
      rw [bind_of_eq_ok (Guard.word_of_contains sumFits),
        bind_of_eq_ok (markGuarded_eq Synapse.arrive found transmission.marked.2),
        Guard.setIfInBounds_eq_modify place (· + synapse.weight.actual),
        List.filter_cons_of_pos (by simp [reaches, near]), List.filter_nil]
      simp only [Transmission.pass, List.filterMap_cons, delivers, List.filterMap_nil]
      rfl

/-- Spikes pass synapses without failure as long as few spikes are delivered. -/
theorem Transmission.Of.foldlM_deliverGuarded
    {transmission : Transmission}
    (ofGroup : transmission.Of group)
    {positions : List Nat}
    (inside : ∀ position ∈ positions, position < group.size)
    (areWeights : ∀ synapse ∈ group.synapses.toList, synapse.delivery.IsWeight)
    {before : Nat}
    (collected : Delivery.Collected before transmission.input)
    (few : before + (positions.filter (group.reaches transmission.input.size)).length <
      transmissionLimit) :
    positions.foldlM deliverGuarded transmission =
      .ok (transmission.pass group
        (positions.filter (group.reaches transmission.input.size))) := by
  induction positions generalizing transmission before with
  | nil => rfl
  | cons position rest inductionHypothesis =>
      obtain ⟨here, later⟩ := List.forall_mem_cons.mp inside
      have parts : (position :: rest).filter (group.reaches transmission.input.size) =
          [position].filter (group.reaches transmission.input.size) ++
            rest.filter (group.reaches transmission.input.size) :=
        List.filter_append [position] rest
      rw [parts, List.length_append] at few
      rw [List.foldlM_cons,
        bind_of_eq_ok (ofGroup.deliverGuarded_eq here areWeights collected (by omega)), parts,
        Transmission.pass_append]
      generalize [position].filter (group.reaches transmission.input.size) = reached at few ⊢
      -- What this position has delivered is counted before the rest is.
      have delivered : (reached.filterMap group.delivery?).length ≤ reached.length :=
        List.length_filterMap_le _ _
      have sameSize : (transmission.pass group reached).input.size = transmission.input.size :=
        Delivery.size_addAll _ _
      have more : Delivery.Collected (before + (reached.filterMap group.delivery?).length)
          (transmission.pass group reached).input :=
        collected.addAll (areWeights_filterMap areWeights reached)
      have passed := inductionHypothesis (ofGroup.pass reached) later more
        (by rw [sameSize]; omega)
      rwa [sameSize] at passed

/-- A group transmits without failure as long as few spikes are delivered. -/
theorem transmitGuarded_eq
    (indexed : group.wiring.Indexed)
    (reach : group.params.delay < group.inFlight.length)
    (areWeights : ∀ synapse ∈ group.synapses.toList, synapse.delivery.IsWeight)
    {before : Nat}
    {input : Array Int}
    (collected : Delivery.Collected before input)
    (spikes : List Nat)
    (few : before + (group.transmit spikes input.size).1.length < transmissionLimit) :
    group.transmitGuarded spikes input =
      .ok ((group.transmit spikes input.size).1.length,
        Delivery.addAll (group.transmit spikes input.size).1 input,
        (group.transmit spikes input.size).2) := by
  have inside : ∀ position ∈ (group.arriving spikes).flatMap group.outgoing.lookup,
      position < group.size := by
    intro position member
    obtain ⟨neuron, _, looked⟩ := List.mem_flatMap.mp member
    obtain ⟨synapse, found, _⟩ := (mem_lookup_outgoing indexed).mp looked
    exact (Array.getElem?_eq_some_iff.mp found).1
  rw [transmit_eq, reachedPositions, length_filterMap_delivery?] at few ⊢
  have start : Transmission.Of ⟨input, (group.synapses, group.touched), 0⟩ group := rfl
  have passed := start.foldlM_deliverGuarded inside areWeights collected few
  unfold transmitGuarded
  rw [bind_of_eq_ok (DelayLine.foldlM_scheduleGuarded reach spikes),
    bind_of_eq_ok (DelayLine.drainGuarded_eq _)]
  dsimp only
  rw [← arriving, bind_of_eq_ok passed]
  simp only [Transmission.pass, Nat.zero_add]
  rfl

end SynapseGroup

end Neurochip
