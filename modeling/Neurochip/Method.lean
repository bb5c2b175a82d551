import Neurochip.Error

namespace Neurochip

/-!
# Methods

A method works on an object in place, one write after the other.  It can be
refused on the way; then it ends there, and what it has written stays written.
-/

/-- A computation on an object, which may be refused. -/
abbrev Method (σ α : Type) : Type :=
  ExceptT Refusal (StateM σ) α

namespace Method

/-- The outcome of a method that is called on an object, and the object as the call leaves it. -/
def call (method : Method σ α) (object : σ) : Except Refusal α × σ :=
  method.run.run object

/-- The object as a call of a method leaves it, unless the call is refused. -/
def result (method : Method σ Unit) (object : σ) : Except Refusal σ :=
  match method.call object with
  | (.ok _, after) => .ok after
  | (.error refusal, _) => .error refusal

/-- Calls a method on some objects, each with an item of its own, up to the first refusal. -/
def onEach (method : α → Method σ Unit) : List σ → List α → Except Refusal Unit × List σ
  | object :: objects, item :: items =>
      match (method item).call object with
      | (.ok _, after) =>
          let (outcome, others) := onEach method objects items
          (outcome, after :: others)
      | (.error refusal, after) => (.error refusal, after :: objects)
  | objects, _ => (.ok (), objects)

/-- Copies of some objects on which a method has been called, unless one of the calls is refused.
The copies that have been written until then are left behind. -/
def inCopies (method : α → Method σ Unit) (objects : List σ) (items : List α) :
    Except Refusal (List σ) :=
  match onEach method objects items with
  | (.ok _, copies) => .ok copies
  | (.error refusal, _) => .error refusal

variable {object : σ}

@[simp] theorem call_get : (get : Method σ σ).call object = (.ok object, object) :=
  rfl

@[simp] theorem call_modify (change : σ → σ) :
    (modify change : Method σ Unit).call object = (.ok (), change object) :=
  rfl

/-- A check leaves the object alone. -/
@[simp] theorem call_check (check : Except Refusal α) :
    (liftM check : Method σ α).call object = (check, object) :=
  rfl

/-- The second part of a method finds the object as the first part leaves it, if it gets that far. -/
@[simp] theorem call_bind (method : Method σ α) (next : α → Method σ β) :
    (method >>= next).call object =
      match method.call object with
      | (.ok value, after) => (next value).call after
      | (.error refusal, after) => (.error refusal, after) := by
  simp only [call, ExceptT.run_bind, StateT.run_bind]
  rcases method.run.run object with ⟨_ | _, _⟩ <;> rfl

end Method

end Neurochip
