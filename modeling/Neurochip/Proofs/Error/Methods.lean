import Neurochip.Method
import Neurochip.Proofs.Error.Acceptance

namespace Neurochip.Method

/-!
# Methods that are carried out completely or not at all

A method writes one thing after the other, so a refusal on the way could leave
its object half written.  A method that carries out a change never does this:
it makes the whole change, or the change is refused and the object is kept.
-/

variable {σ α : Type}

/-- A call makes a change completely, or keeps the object if the change is refused. -/
def CarriesOut (method : Method σ Unit) (change : σ → Except Refusal σ) : Prop :=
  ∀ object, method.call object =
    match change object with
    | .ok after => (.ok (), after)
    | .error refusal => (.error refusal, object)

section

variable {method : Method σ Unit} {change : σ → Except Refusal σ}

theorem CarriesOut.result_eq (carries : CarriesOut method change) (object : σ) :
    method.result object = change object := by
  rw [result, carries object]
  cases change object <;> rfl

/-- What a method carries out is its result. -/
theorem CarriesOut.self (carries : CarriesOut method change) :
    CarriesOut method method.result := by
  intro object
  rw [carries.result_eq object]
  exact carries object

/-- After a call the object is the result, or the object from before if there is none. -/
theorem CarriesOut.call_eq (carries : CarriesOut method change) (object : σ) :
    method.call object =
      ((fun _ => ()) <$> method.result object, resultOr object (method.result object)) := by
  rw [carries.result_eq object, carries object]
  cases change object <;> rfl

/-- A refused call keeps the object. -/
theorem CarriesOut.call_of_refused
    (carries : CarriesOut method change)
    {object : σ}
    {refusal : Refusal}
    (refused : method.result object = .error refusal) :
    method.call object = (.error refusal, object) := by
  rw [carries.call_eq, refused]
  rfl

end

/-- A method that makes two checks of its object before it writes anything carries out what it
writes. -/
theorem carriesOut_of_checks
    {first second : σ → Except Refusal Unit}
    {write : σ → Method σ Unit}
    {written : σ → σ}
    (writes : ∀ object, first object = .ok () →
      (write object).call object = (.ok (), written object)) :
    CarriesOut
      (do
        let object ← get
        first object
        second object
        write object)
      fun object =>
        (do
          first object
          second object) >>= fun _ => pure (written object) := by
  intro object
  simp only [call_bind, call_get, call_check]
  cases passed : first object with
  | error refusal => rfl
  | ok _ =>
      cases second object with
      | error refusal => rfl
      | ok _ => exact writes object passed

/-- Copies are written by the changes that the calls carry out, each to its own copy. -/
theorem inCopies_eq_mapM
    {method : α → Method σ Unit}
    {change : σ → α → Except Refusal σ}
    (each : ∀ item, CarriesOut (method item) fun object => change object item)
    {objects : List σ}
    {items : List α}
    (sameLength : objects.length = items.length) :
    inCopies method objects items =
      (objects.zip items).mapM fun (object, item) => change object item := by
  induction objects generalizing items with
  | nil => rfl
  | cons object objects inductionHypothesis =>
      cases items with
      | nil => cases sameLength
      | cons item items =>
          have others := inductionHypothesis (Nat.succ.inj sameLength)
          unfold inCopies at others ⊢
          rw [onEach, each item object, List.zip_cons_cons, List.mapM_cons, ← others]
          dsimp only
          cases change object item with
          | error refusal => rfl
          | ok after =>
              dsimp only
              rcases onEach method objects items with ⟨_ | _, copies⟩ <;> rfl

end Neurochip.Method
