import Neurochip.Decimal.Shortest

namespace Neurochip

/-!
# JSON values

Parameters and snapshots are exchanged as JSON.  An integer and a floating
point number are different values even where they are equal as numbers, because
only the former is accepted for an integer field.
-/

/-- A JSON value; the members of an object have distinct keys. -/
inductive Json where
  | null
  | bool (value : Bool)
  | int (value : Int)
  | float (negative : Bool) (value : Binary64)
  | str (value : String)
  | arr (items : List Json)
  | obj (members : List (String × Json))
  deriving Repr, Inhabited

namespace Json

/-- A natural number. -/
def nat (value : Nat) : Json :=
  int value

/-- An array of natural numbers. -/
def nats (values : List Nat) : Json :=
  arr (values.map nat)

/-- An array of integers. -/
def ints (values : List Int) : Json :=
  arr (values.map int)

/-- An array of texts. -/
def strs (values : List String) : Json :=
  arr (values.map str)

/-- The member of an object with the given key. -/
def member? (key : String) : Json → Option Json
  | obj members => members.lookup key
  | _ => none

end Json

end Neurochip
