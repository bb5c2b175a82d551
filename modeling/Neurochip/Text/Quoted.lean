import Neurochip.Text.Extending
import Neurochip.Text.Ignorable
import Neurochip.Text.Unprintable

namespace Neurochip

/-!
# Quoted text

Messages show a text between double quotes.  Quotes, backslashes and characters
that would not be seen in print are escaped; the latter by their code point.
-/

/-- Whether a character is not seen in print, or only as part of the one before it. -/
def isHidden (character : Char) : Bool :=
  CharRanges.unprintable.covers character ||
  CharRanges.extending.covers character ||
  CharRanges.ignorable.covers character

/-- A character as it stands between quotes. -/
def quotedChar (character : Char) : String :=
  if character == '"' then "\\\""
  else if character == '\\' then "\\\\"
  else if character == '\n' then "\\n"
  else if character == '\r' then "\\r"
  else if character == '\t' then "\\t"
  else if character == '\x00' then "\\0"
  else if isHidden character then
    "\\u\x7b" ++ String.ofList (Nat.toDigits 16 character.toNat) ++ "\x7d"
  else
    String.singleton character

/-- A text between quotes. -/
def quoted (text : String) : String :=
  "\"" ++ String.join (text.toList.map quotedChar) ++ "\""

end Neurochip
