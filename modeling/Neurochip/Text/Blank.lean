import Neurochip.Tally
import Neurochip.Text.CharRanges

namespace Neurochip

/-!
# White space

The characters with the Unicode property White_Space, which separate the words
of a learning rule.
-/

/-- The ranges of the characters that are white space. -/
def CharRanges.blank : CharRanges :=
  [(0x9, 0xD), (0x20, 0x20), (0x85, 0x85), (0xA0, 0xA0), (0x1680, 0x1680),
    (0x2000, 0x200A), (0x2028, 0x2029), (0x202F, 0x202F), (0x205F, 0x205F),
    (0x3000, 0x3000)]

/-- Whether a character is white space. -/
def isBlank (character : Char) : Bool :=
  CharRanges.blank.covers character

/-- Whether a text has no character that is not white space. -/
def isBlankText (text : String) : Bool :=
  text.toList.all isBlank

/-- The bytes that characters take in UTF-8. -/
def byteLength (characters : List Char) : Nat :=
  tally Char.utf8Size characters

end Neurochip
