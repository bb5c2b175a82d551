import Neurochip.Error
import Neurochip.Params.Validation

namespace Neurochip

/-!
# Neurons

A neuron is a leaky integrator with two state variables.  In each step its
current decays and takes up the input, its voltage decays and takes up the
current, and it spikes if the voltage reaches the threshold.  After a spike the
voltage is zero and the neuron ignores its input until the refractory period is
over.
-/

/-- The state of one neuron. -/
structure NeuronState where
  voltage : Int := 0
  current : Int := 0
  /-- The steps left until the neuron integrates again; it does so when one is left. -/
  refractory : Nat := 0
  deriving Repr, DecidableEq, Inhabited

namespace NeuronState

/--
The rest of a step once the decayed current and the input have been added up,
and whether it ends in a spike.
-/
def integrate
    (state : NeuronState)
    (total : Int)
    (params : NeuronParams)
    (mode : RoundingMode) :
    Draw (NeuronState × Bool) := do
  let current := FixedPoint.stateRange.clamp total
  let keptVoltage ← mode.decay state.voltage params.decayVoltage
  let voltage := FixedPoint.stateRange.clamp (keptVoltage + current)
  if params.threshold ≤ voltage then
    return ({ voltage := 0, current := current, refractory := params.refractoryPeriod }, true)
  else
    return ({ voltage := voltage, current := current, refractory := 0 }, false)

/-- One step of a neuron, and whether it spikes in it. -/
def update
    (state : NeuronState)
    (input : Int)
    (params : NeuronParams)
    (mode : RoundingMode) :
    Draw (NeuronState × Bool) :=
  if 1 < state.refractory then
    return ({ state with refractory := state.refractory - 1 }, false)
  else do
    let keptCurrent ← mode.decay state.current params.decayCurrent
    state.integrate (keptCurrent + input) params mode

/--
One step of a neuron.  If its decayed current and the input add up to no word of
64 bits, the step ends there, and the error holds the neuron with its voltage
and current as they were.
-/
def updateChecked
    (state : NeuronState)
    (input : Int)
    (params : NeuronParams)
    (mode : RoundingMode) :
    Draw (Except NeuronState (NeuronState × Bool)) :=
  if 1 < state.refractory then
    return .ok ({ state with refractory := state.refractory - 1 }, false)
  else do
    let keptCurrent ← mode.decay state.current params.decayCurrent
    if Bounds.int64.Contains (keptCurrent + input) then
      let updated ← state.integrate (keptCurrent + input) params mode
      return .ok updated
    else
      return .error { state with refractory := 0 }

/-- A step that does not end early is the step. -/
theorem run_updateChecked_of_ok
    {state : NeuronState}
    {input : Int}
    {params : NeuronParams}
    {mode : RoundingMode}
    {generator next : Generator}
    {updated : NeuronState × Bool}
    (finished :
      (state.updateChecked input params mode).run generator = (.ok updated, next)) :
    (state.update input params mode).run generator = (updated, next) := by
  unfold updateChecked at finished
  unfold update
  split
  · rename_i waiting
    rw [if_pos waiting] at finished
    cases finished
    rfl
  · rename_i integrating
    rw [if_neg integrating, Draw.run_bind] at finished
    split at finished <;> cases finished
    rfl

/-- What is wrong with a saved state found at a position. -/
def violations (position : Nat) (state : NeuronState) : List Violation :=
  let path : Path := [.field "neuron_states", .item position]
  Violation.ofRange (path ++ [.field "voltage"]) FixedPoint.stateRange state.voltage ++
  Violation.ofRange (path ++ [.field "current"]) FixedPoint.stateRange state.current ++
  Violation.ofMaximum (path ++ [.field "refractory_counter"]) NeuronParams.maxRefractoryPeriod
    state.refractory

end NeuronState

end Neurochip
