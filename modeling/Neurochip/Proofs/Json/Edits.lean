import Neurochip.Json.Value
import Neurochip.Params.Violation

namespace Neurochip

/-!
# Editing JSON

A file is edited by leaving out members of objects, anywhere in it, or by
writing a value of its own at some place.  What an edit makes of an object is
told member by member, and what it makes of an array item by item.
-/

/-- A choice of places within a value. -/
abbrev Places : Type :=
  Path → Bool

namespace Places

def nowhere : Places :=
  fun _ => false

/-- The chosen places within a part. -/
def inside (places : Places) (step : PathStep) : Places :=
  fun path => places (step :: path)

@[simp] theorem inside_nowhere (step : PathStep) : nowhere.inside step = nowhere :=
  rfl

/-- The value of a field, or its default if the field is chosen. -/
def orDefault (places : Places) (name : String) (standard value : α) : α :=
  if places [.field name] then standard else value

/-- Whether only fields with some names are chosen. -/
def OnlyFields (names : List String) (places : Places) : Prop :=
  ∀ path name, places (path ++ [.field name]) = true → name ∈ names

variable {names : List String} {places : Places}

theorem onlyFields_nowhere (names : List String) : OnlyFields names nowhere :=
  fun _ _ chosen => absurd chosen Bool.false_ne_true

theorem OnlyFields.inside (only : OnlyFields names places) (step : PathStep) :
    OnlyFields names (places.inside step) :=
  fun path => only (step :: path)

/-- A field with another name is not chosen. -/
theorem OnlyFields.eq_false
    (only : OnlyFields names places)
    {name : String}
    (other : name ∉ names) :
    places [.field name] = false :=
  Bool.eq_false_iff.mpr fun chosen => other (only [] name chosen)

end Places

namespace Json

mutual

/-- The value without the members at the given places. -/
def without (omitted : Places) : Json → Json
  | arr items => arr (withoutItems omitted 0 items)
  | obj members => obj (withoutMembers omitted members)
  | other => other

/-- Items from some index on, without the members at the given places. -/
def withoutItems (omitted : Places) (index : Nat) : List Json → List Json
  | [] => []
  | item :: rest =>
      item.without (omitted.inside (.item index)) :: withoutItems omitted (index + 1) rest

/-- Members other than those at the given places, without the members at these places. -/
def withoutMembers (omitted : Places) : List (String × Json) → List (String × Json)
  | [] => []
  | (key, value) :: rest =>
      if omitted [.field key] then
        withoutMembers omitted rest
      else
        (key, value.without (omitted.inside (.field key))) :: withoutMembers omitted rest

end

mutual

/-- Leaving out nothing changes nothing. -/
theorem without_nowhere (json : Json) : json.without .nowhere = json := by
  cases json with
  | arr items => rw [without, withoutItems_nowhere]
  | obj members => rw [without, withoutMembers_nowhere]
  | _ => rfl

theorem withoutItems_nowhere (start : Nat) (items : List Json) :
    withoutItems .nowhere start items = items := by
  cases items with
  | nil => rfl
  | cons item rest =>
      rw [withoutItems, Places.inside_nowhere, without_nowhere item, withoutItems_nowhere]

theorem withoutMembers_nowhere (members : List (String × Json)) :
    withoutMembers .nowhere members = members := by
  match members with
  | [] => rfl
  | (key, value) :: rest =>
      have kept : Places.nowhere [.field key] = false := rfl
      rw [withoutMembers, kept, if_neg Bool.false_ne_true, Places.inside_nowhere,
        without_nowhere value, withoutMembers_nowhere]

end

/-- Items lose what is left out of each of them. -/
theorem withoutItems_eq_mapIdx (omitted : Places) (start : Nat) (items : List Json) :
    withoutItems omitted start items =
      items.mapIdx fun index item => item.without (omitted.inside (.item (start + index))) := by
  induction items generalizing start with
  | nil => rfl
  | cons item rest inductionHypothesis =>
      rw [withoutItems, inductionHypothesis, List.mapIdx_cons]
      simp only [Nat.add_zero, Nat.add_assoc, Nat.add_comm 1]

/-- Members that are not left out lose what is left out of each of them. -/
theorem withoutMembers_eq_map_filter (omitted : Places) (members : List (String × Json)) :
    withoutMembers omitted members =
      (members.filter fun member => !omitted [.field member.1]).map fun member =>
        (member.1, member.2.without (omitted.inside (.field member.1))) := by
  induction members with
  | nil => rfl
  | cons member rest inductionHypothesis =>
      obtain ⟨key, value⟩ := member
      rw [withoutMembers, inductionHypothesis]
      cases kept : omitted [.field key] with
      | true => simp [kept]
      | false => simp [kept]

/-- The part of a value at a place, if there is one. -/
def at? : Path → Json → Option Json
  | [], json => some json
  | .field name :: rest, json => (json.member? name).bind (at? rest)
  | .item index :: rest, arr items => items[index]?.bind (at? rest)
  | .item _ :: _, _ => none

/-- The value with another part at a place; without such a place it is unchanged. -/
def replacing : Path → Json → Json → Json
  | [], _, part => part
  | .field name :: rest, obj members, part =>
      obj (members.map fun (key, value) =>
        (key, if key = name then value.replacing rest part else value))
  | .item index :: rest, arr items, part =>
      arr (items.modify index (·.replacing rest part))
  | _ :: _, json, _ => json

end Json

end Neurochip
