import Neurochip.Json.Codec

namespace Neurochip.Json

/-!
# Records

A record is described once by its fields, and the description both writes and
reads it.  It is written as an object with all fields.  It is read from an
object, whose keys are visited in order, or from an array that has the fields
in the order of the description.  A field that is left out keeps its default,
unless it is required.
-/

/-- One field of a record. -/
structure Field (α : Type) where
  name : String
  required : Bool
  write : α → Json
  /-- Reads the field into a record. -/
  read : Json → α → Except Problem α

/-- A field with a codec, and ways to get and set it. -/
def Field.ofCodec
    (name : String)
    (required : Bool)
    (codec : Codec β)
    (get : α → β)
    (set : α → β → α) :
    Field α where
  name := name
  required := required
  write record := codec.write (get record)
  read json record := (codec.read json).map (set record)

/-- A field that has to be present. -/
def Field.mandatory
    (name : String)
    (codec : Codec β)
    (get : α → β)
    (set : α → β → α) :
    Field α :=
  .ofCodec name true codec get set

/-- A field that may be left out. -/
def Field.optional
    (name : String)
    (codec : Codec β)
    (get : α → β)
    (set : α → β → α) :
    Field α :=
  .ofCodec name false codec get set

/-- The description of a record. -/
structure Record (α : Type) where
  name : String
  fields : List (Field α)
  /-- The record with every field at its default. -/
  blank : α
  /-- Whether an object may have no other keys than the fields. -/
  closed : Bool := true

namespace Record

/-- The names of the fields in the order of the description. -/
def fieldNames (record : Record α) : List String :=
  record.fields.map (·.name)

/-- How messages call a record of this kind. -/
def title (record : Record α) : String :=
  s!"struct {record.name}"

/-- How messages call an array with all fields. -/
def arrayTitle (record : Record α) : String :=
  let count := record.fields.length
  let noun := if count = 1 then "element" else "elements"
  s!"struct {record.name} with {count} {noun}"

/-- Members of an object in the order of their keys. -/
def sortMembers (members : List (String × Json)) : List (String × Json) :=
  members.mergeSort fun left right => decide (left.1 ≤ right.1)

/-- Reads members into a record, one after the other. -/
def readMembers (record : Record α) (value : α) : List (String × Json) → Except Problem α
  | [] => .ok value
  | (key, json) :: rest =>
      match record.fields.find? (·.name == key) with
      | some field => do
          let value ← field.read json value
          readMembers record value rest
      | none =>
          if record.closed then
            .error (.unknownField key record.fieldNames)
          else
            readMembers record value rest

/-- Refuses an object without a required field. -/
def checkPresent (fields : List (Field α)) (keys : List String) : Except Problem Unit :=
  match fields.find? fun field => field.required && !keys.contains field.name with
  | some field => .error (.missingField field.name)
  | none => .ok ()

/-- Reads the items of an array into the fields; `done` items have been read before. -/
def readItems (record : Record α) (value : α) (done : Nat) :
    List (Field α) → List Json → Except Problem α
  | [], [] => .ok value
  | [], rest => .error (.tooLong (done + rest.length))
  | field :: fields, [] =>
      if field.required then
        .error (.tooShort done record.arrayTitle)
      else
        readItems record value (done + 1) fields []
  | field :: fields, item :: items => do
      let value ← field.read item value
      readItems record value (done + 1) fields items

/-- Reads a record. -/
def read (record : Record α) : Json → Except Problem α
  | .obj members => do
      let value ← record.readMembers record.blank (sortMembers members)
      checkPresent record.fields (members.map (·.1))
      return value
  | .arr items => record.readItems record.blank 0 record.fields items
  | other => .error (.wrongType other record.title)

/-- Writes a record with all its fields. -/
def write (record : Record α) (value : α) : Json :=
  .obj (record.fields.map fun field => (field.name, field.write value))

/-- The codec of a record. -/
def codec (record : Record α) : Codec α where
  write := record.write
  read := record.read

end Record

end Neurochip.Json
