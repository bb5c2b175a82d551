import Neurochip.Decimal.Reading
import Neurochip.Json.Value

namespace Neurochip

/-!
# Numbers in JSON text

A number without fraction and exponent is an integer if it is a signed or
unsigned word of 64 bits; every other number is a floating point number, and so
is a negative zero.  The leading digits count as far as they make up a word of
64 bits: digits of the whole part after those only shift the exponent, and
digits of the fraction after those are dropped.
-/

namespace Json

/-- The parts of the text of a number. -/
structure NumberText where
  negative : Bool
  whole : List Char
  /-- The digits after the point. -/
  fraction : List Char
  exponent? : Option Int
  deriving Repr, DecidableEq

namespace NumberText

/-- The value of a decimal digit. -/
def digitValue (digit : Char) : Nat :=
  digit.toNat - '0'.toNat

/-- The value of decimal digits. -/
def digitsValue (digits : List Char) : Nat :=
  digits.foldl (fun value digit => 10 * value + digitValue digit) 0

/-- The exponent that is written after its letter. -/
def exponentOf : List Char → Int
  | '-' :: digits => -digitsValue digits
  | '+' :: digits => digitsValue digits
  | digits => digitsValue digits

/-- The exponent of the rest of a number, if there is one. -/
def exponentAfter? : List Char → Option Int
  | [] => none
  | _ :: written => some (exponentOf written)

/-- The parts after the sign. -/
def ofUnsigned (negative : Bool) (text : List Char) : NumberText :=
  let whole := text.takeWhile Char.isDigit
  match text.dropWhile Char.isDigit with
  | '.' :: rest =>
      { negative := negative
        whole := whole
        fraction := rest.takeWhile Char.isDigit
        exponent? := exponentAfter? (rest.dropWhile Char.isDigit) }
  | rest =>
      { negative := negative
        whole := whole
        fraction := []
        exponent? := exponentAfter? rest }

/-- The parts of a text that has the form of a number. -/
def ofChars : List Char → NumberText
  | '-' :: text => ofUnsigned true text
  | text => ofUnsigned false text

/-- The integers that are words of 64 bits, signed or unsigned. -/
def words : Bounds :=
  { lower := Bounds.int64.lower, upper := 18446744073709551615 }

/-- Appends digits to a number while it is a word, and answers how many could not be appended. -/
def appendDigits (value : Nat) : List Char → Nat × Nat
  | [] => (value, 0)
  | digit :: rest =>
      let next := 10 * value + digitValue digit
      if words.Contains next then appendDigits next rest else (value, rest.length + 1)

/-- The digits that count, and their power of ten. -/
def decimal (number : NumberText) : Decimal :=
  let (whole, shifted) := appendDigits 0 number.whole
  let (digits, dropped) := appendDigits whole number.fraction
  { digits := digits
    exponent := shifted + dropped - number.fraction.length + number.exponent?.getD 0 }

/-- The integer that a text is read as. -/
def integer? (number : NumberText) : Option Int :=
  let magnitude := digitsValue number.whole
  if number.fraction ≠ [] ∨ number.exponent? ≠ none then
    none
  else if number.negative then
    if magnitude = 0 then none else words.within? (-magnitude)
  else
    words.within? magnitude

/-- The value of a number, unless it is too large for a floating point number. -/
def value? (number : NumberText) : Option Json :=
  match number.integer? with
  | some value => some (int value)
  | none => number.decimal.read?.map (float number.negative)

end NumberText

end Json

end Neurochip
