import Neurochip.Network.Step

namespace Neurochip

/-!
# Where there is room

The capacity is a cut-off: it keeps objects from being built that no machine
could hold.  Below it nothing depends on where it lies: lines, inputs and groups
are built as they would be anyway, and a run comes to the same reports.
-/

theorem DelayLine.empty?_of_hasRoom {reach : Nat} (room : Capacity.HasRoom reach) :
    (empty? reach : Option (DelayLine α)) = some (empty reach) := by
  rw [empty?, Capacity.roomFor?_of_hasRoom room, Option.map_some]

theorem Delivery.noInput?_of_hasRoom {neurons : Nat} (room : Capacity.HasRoom neurons) :
    noInput? neurons = some (Array.replicate neurons 0) := by
  rw [noInput?, Capacity.roomFor?_of_hasRoom room, Option.map_some]

/-- With room for its neurons, a group is created or refused as without a cut-off. -/
theorem NeuronGroup.create?_of_hasRoom
    {size : Nat}
    (room : Capacity.HasRoom size)
    (params : NeuronParams)
    (generator : Generator) :
    create? size params generator = some <$> create size params generator := by
  rw [create?, create, Capacity.roomFor?_of_hasRoom room]
  cases Refusal.checkValid (params.violations []) <;> rfl

namespace Network

/-- With room for its reports, a run is finished exactly if it ends before the last time, and is
then the run. -/
theorem runChecked_eq_ok_iff
    {network : Network}
    {steps : Nat}
    (room : Capacity.HasRoom steps)
    {outcome : List StepReport × Network} :
    network.runChecked steps = .ok outcome ↔
      network.nextTime + steps ≤ lastTime ∧ network.run steps = outcome := by
  rw [runChecked, if_pos room]
  dsimp only
  split
  · rename_i early
    rw [Nat.min_eq_left (by omega), Except.ok.injEq]
    exact (and_iff_right early).symm
  · rename_i late
    simp [late]

end Network

end Neurochip
