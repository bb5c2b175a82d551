import Neurochip.Params.Violation
import Neurochip.Rule.Token

namespace Neurochip

/-!
# Errors

Building or restoring a network can fail in three ways: two lists differ in
length, values are not acceptable, or a learning rule is not one.
-/

/-- Two lists that should have the same length. -/
inductive Compared where
  | sourceEvents (source : Nat)
  | events
  | neuronStates
  | synapseStates
  | synapseWeights
  | neuronGroups
  | synapseGroups
  deriving Repr, DecidableEq

namespace Compared

/-- How messages call the two lists. -/
def text : Compared → String
  | sourceEvents source => s!"spike_sources[{source}] indices and times"
  | events => "spike source indices and times"
  | neuronStates => "neuron states"
  | synapseStates => "synapse states"
  | synapseWeights => "synapse weights"
  | neuronGroups => "neuron groups"
  | synapseGroups => "synapse groups"

end Compared

/-- Why a network, a part of it or a saved state is refused. -/
inductive Refusal where
  | lengths (compared : Compared) (left right : Nat)
  | invalid (violations : List Violation)
  | rule (error : Rule.Error)
  deriving Repr, DecidableEq

namespace Refusal

/-- The wording of a refusal. -/
def message : Refusal → String
  | lengths compared left right =>
      s!"{compared.text}: length mismatch ({left} vs {right})"
  | invalid violations =>
      "invalid configuration: " ++ "; ".intercalate (violations.map Violation.message)
  | rule error =>
      error.message

/-- Refuses two lengths that differ. -/
def checkLengths (compared : Compared) (left right : Nat) : Except Refusal Unit :=
  if left = right then .ok () else .error (.lengths compared left right)

/-- Refuses anything with violations. -/
def checkValid : List Violation → Except Refusal Unit
  | [] => .ok ()
  | violation :: rest => .error (.invalid (violation :: rest))

/-- Two lengths pass the check exactly when they are equal. -/
@[simp] theorem checkLengths_eq_ok_iff {compared : Compared} {left right : Nat} :
    checkLengths compared left right = .ok () ↔ left = right := by
  unfold checkLengths
  split <;> simp_all

/-- Something passes the check exactly when it has no violations. -/
@[simp] theorem checkValid_eq_ok_iff {violations : List Violation} :
    checkValid violations = .ok () ↔ violations = [] := by
  cases violations <;> simp [checkValid]

end Refusal

end Neurochip
