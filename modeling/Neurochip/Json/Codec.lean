import Neurochip.Bounds
import Neurochip.Json.Value
import Neurochip.Text.Quoted

namespace Neurochip

/-!
# Codecs between values and JSON

A codec writes values of one type as JSON and reads them back.  Reading either
answers a value or the first problem that was met; `Json.Problem.message` is
its wording.
-/

namespace Json

/-- Why a JSON value is not what was expected. -/
inductive Problem where
  | wrongType (found : Json) (expected : String)
  | outOfRange (value : Int) (expected : String)
  | missingField (name : String)
  | unknownField (name : String) (known : List String)
  | unknownVariant (name : String) (known : List String)
  | tooShort (length : Nat) (expected : String)
  | tooLong (length : Nat)
  | notSingleKey
  | bareVariant
  deriving Repr, Inhabited

/-- How messages call a value of the wrong type. -/
def describe : Json → String
  | null => "null"
  | bool value => s!"boolean `{value}`"
  | int value => s!"integer `{value}`"
  | float negative value =>
      let sign := if negative then "-" else ""
      s!"floating point `{sign}{value.shortest.textBySize}`"
  | str value => s!"string {quoted value}"
  | arr _ => "sequence"
  | obj _ => "map"

/-- A list of alternatives for the reader. -/
def alternatives : List String → String
  | [] => "there are no fields"
  | [only] => s!"expected `{only}`"
  | [first, second] => s!"expected `{first}` or `{second}`"
  | names => "expected one of " ++ ", ".intercalate (names.map fun name => s!"`{name}`")

namespace Problem

/-- The wording of a problem. -/
def message : Problem → String
  | wrongType found expected =>
      s!"invalid type: {found.describe}, expected {expected}"
  | outOfRange value expected =>
      s!"invalid value: integer `{value}`, expected {expected}"
  | missingField name =>
      s!"missing field `{name}`"
  | unknownField name known =>
      s!"unknown field `{name}`, {alternatives known}"
  | unknownVariant name known =>
      s!"unknown variant `{name}`, {alternatives known}"
  | tooShort length expected =>
      s!"invalid length {length}, expected {expected}"
  | tooLong length =>
      s!"invalid length {length}, expected fewer elements in array"
  | notSingleKey =>
      "invalid value: map, expected map with a single key"
  | bareVariant =>
      "invalid type: unit variant, expected newtype variant"

end Problem

/-- A way to write values as JSON and to read them. -/
structure Codec (α : Type) where
  write : α → Json
  read : Json → Except Problem α

namespace Codec

/-- Values that stand for others. -/
def map (codec : Codec α) (wrap : α → β) (unwrap : β → α) : Codec β where
  write value := codec.write (unwrap value)
  read json := (codec.read json).map wrap

/-- Integers of a range whose name is used in messages. -/
def integer (name : String) (range : Bounds) : Codec Int where
  write value := .int value
  read
    | .int value =>
        if range.Contains value then .ok value else .error (.outOfRange value name)
    | other => .error (.wrongType other name)

/-- Natural numbers up to a maximum, with a name for messages. -/
def natural (name : String) (maximum : Nat) : Codec Nat :=
  (integer name ⟨0, maximum, Int.natCast_nonneg maximum⟩).map Int.toNat Int.ofNat

/-- Unsigned numbers of 8 bits. -/
def unsigned8 : Codec Nat := natural "u8" 255

/-- Unsigned numbers of 16 bits. -/
def unsigned16 : Codec Nat := natural "u16" 65535

/-- Unsigned numbers of 32 bits. -/
def unsigned32 : Codec Nat := natural "u32" 4294967295

/-- Unsigned numbers of 64 bits. -/
def unsigned64 : Codec Nat := natural "u64" 18446744073709551615

/-- Counts, indices and times, unsigned numbers of 64 bits. -/
def size : Codec Nat := natural "usize" 18446744073709551615

/-- Signed numbers of 8 bits. -/
def signed8 : Codec Int := integer "i8" { lower := -128, upper := 127 }

/-- Signed numbers of 32 bits. -/
def signed32 : Codec Int := integer "i32" Bounds.int32

/-- Truth values. -/
def flag : Codec Bool where
  write value := .bool value
  read
    | .bool value => .ok value
    | other => .error (.wrongType other "a boolean")

/-- Texts. -/
def string : Codec String where
  write value := .str value
  read
    | .str value => .ok value
    | other => .error (.wrongType other "a string")

/-- Lists of values. -/
def list (codec : Codec α) : Codec (List α) where
  write values := .arr (values.map codec.write)
  read
    | .arr items => items.mapM codec.read
    | other => .error (.wrongType other "a sequence")

/-- A way to write and read one alternative of a type, next to the name of the alternative. -/
structure Variant (α : Type) where
  name : String
  /-- The value of this alternative that stands alone, where it has no content. -/
  bare? : Option α
  /-- Reads the content of the alternative. -/
  readContent : Json → Except Problem α

/-- An alternative without content. -/
def Variant.unit (name : String) (value : α) : Variant α where
  name := name
  bare? := some value
  readContent
    | .null => .ok value
    | other => .error (.wrongType other "unit")

/-- An alternative with content. -/
def Variant.ofContent (name : String) (codec : Codec β) (wrap : β → α) : Variant α where
  name := name
  bare? := none
  readContent json := (codec.read json).map wrap

/-- The alternative with the given name. -/
def findVariant (variants : List (Variant α)) (name : String) : Except Problem (Variant α) :=
  match variants.find? (·.name == name) with
  | some found => .ok found
  | none => .error (.unknownVariant name (variants.map (·.name)))

/-- Types with alternatives: a name alone, or an object whose only key is the name. -/
def variants (write : α → Json) (variants : List (Variant α)) : Codec α where
  write := write
  read
    | .str name => do
        let found ← findVariant variants name
        match found.bare? with
        | some value => .ok value
        | none => .error .bareVariant
    | .obj [(name, content)] => do
        let found ← findVariant variants name
        found.readContent content
    | .obj _ => .error .notSingleKey
    | other => .error (.wrongType other "string or map")

/-- Types whose values are names. -/
def names (name : α → String) (values : List α) : Codec α :=
  variants (fun value => .str (name value))
    (values.map fun value => .unit (name value) value)

end Codec

end Json

end Neurochip
