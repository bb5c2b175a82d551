import Neurochip.Params.Basic

namespace Neurochip

/-!
# Violations

Checking parameters or a saved state answers the list of everything that is
wrong with them.  A `Violation` is one such cause, with the place where it was
found; `Violation.message` is its wording.  The lemmas say for each kind of test
exactly when it finds nothing.
-/

/-- One step from a structure to a part of it. -/
inductive PathStep where
  | field (name : String)
  | item (index : Nat)
  deriving Repr, DecidableEq

/-- A place within a structure. -/
abbrev Path : Type :=
  List PathStep

namespace Path

/-- What a step adds to the text of a path that is not empty. -/
def suffixText : PathStep → String
  | .field name => s!".{name}"
  | .item index => s!"[{index}]"

/-- The path as it is written in messages. -/
def text : Path → String
  | [] => ""
  | .field name :: rest => name ++ String.join (rest.map suffixText)
  | .item index :: rest => s!"[{index}]" ++ String.join (rest.map suffixText)

end Path

/-- What an index or a time has to stay below. -/
inductive Limit where
  | neuronCount
  | period
  | sourceSize
  | targetSize
  deriving Repr, DecidableEq

namespace Limit

/-- How messages call the limit. -/
def text : Limit → String
  | neuronCount => "num_neurons"
  | period => "period"
  | sourceSize => "the source size"
  | targetSize => "the target size"

end Limit

/-- One thing that is wrong with parameters or with a saved state. -/
inductive Violation where
  | outsideRange (path : Path) (lower upper value : Int)
  | notBelow (path : Path) (limit : Limit) (bound value : Nat)
  | repeatedEvent (path : Path) (index time : Nat)
  | unknownSource (path : Path) (source : SourceRef)
  | unknownTarget (path : Path) (group : Nat)
  | weightOutsideRange (path : Path) (mode : SignMode) (value : Int)
  | noThreads
  | tooManyThreads
  | otherConnection (path : Path) (pre post expectedPre expectedPost : Nat)
  | unrepresentableWeight (path : Path) (mantissa actual : Int)
  deriving Repr, DecidableEq

namespace Violation

/-- The statement that a value lies outside a range. -/
def rangeMessage (place : String) (lower upper value : Int) : String :=
  s!"{place} has to be between {lower} and {upper}, got {value}"

/-- The wording of a violation. -/
def message : Violation → String
  | outsideRange path lower upper value =>
      rangeMessage path.text lower upper value
  | notBelow path limit bound value =>
      s!"{path.text} has to be less than {limit.text} ({bound}), got {value}"
  | repeatedEvent path index time =>
      s!"{path.text} contains index {index} more than once at time {time}"
  | unknownSource path source =>
      s!"{path.text} refers to unknown {source.text}"
  | unknownTarget path group =>
      s!"{path.text} refers to unknown neuron group {group}"
  | weightOutsideRange path mode value =>
      rangeMessage s!"{path.text} ({mode.name})" mode.range.lower mode.range.upper value
  | noThreads =>
      "technical_params.num_threads must be strictly positive"
  | tooManyThreads =>
      "technical_params.num_threads must not be greater than number of available CPUs"
  | otherConnection path pre post expectedPre expectedPost =>
      s!"{path.text} connects {pre} -> {post}, expected {expectedPre} -> {expectedPost}"
  | unrepresentableWeight path mantissa actual =>
      s!"{path.text} holds an unrepresentable weight ({mantissa}, {actual})"

/-- The violation of a range by a value outside it. -/
def ofRange (path : Path) (bounds : Bounds) (value : Int) : List Violation :=
  if bounds.Contains value then
    []
  else
    [outsideRange path bounds.lower bounds.upper value]

/-- The violation of a maximum by a number above it. -/
def ofMaximum (path : Path) (maximum value : Nat) : List Violation :=
  ofRange path ⟨0, maximum, Int.natCast_nonneg maximum⟩ value

/-- The violation of a limit by a number that does not stay below it. -/
def ofLimit (path : Path) (limit : Limit) (bound value : Nat) : List Violation :=
  if value < bound then [] else [notBelow path limit bound value]

/-- A value violates no range that contains it, and every other one. -/
@[simp] theorem ofRange_eq_nil_iff {path : Path} {bounds : Bounds} {value : Int} :
    ofRange path bounds value = [] ↔ bounds.Contains value := by
  unfold ofRange
  split <;> simp_all

/-- A number violates no maximum that is not below it. -/
@[simp] theorem ofMaximum_eq_nil_iff {path : Path} {maximum value : Nat} :
    ofMaximum path maximum value = [] ↔ value ≤ maximum := by
  simp [ofMaximum, Bounds.Contains]

/-- A number violates no limit above it. -/
@[simp] theorem ofLimit_eq_nil_iff {path : Path} {limit : Limit} {bound value : Nat} :
    ofLimit path limit bound value = [] ↔ value < bound := by
  unfold ofLimit
  split <;> simp_all

end Violation

end Neurochip
