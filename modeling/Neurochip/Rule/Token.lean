import Neurochip.Text.Blank
import Neurochip.Trace

namespace Neurochip.Rule

/-!
# Tokens of learning rules

A rule is cut into words, operators and parentheses.  A word is a longest run
of ASCII letters, digits, underscores and points: it is a number if it starts
like one, and the name of a trace otherwise.  Tokens remember where they start,
in bytes of UTF-8, so that errors can point at the source.
-/

/-- What is wrong at some place of a rule. -/
inductive ErrorKind where
  | unknownIdentifier
  | disallowedOperator
  | malformedLiteral
  | unexpectedToken
  | unexpectedEnd
  deriving Repr, DecidableEq

namespace ErrorKind

/-- The name of the kind in messages. -/
def name : ErrorKind → String
  | unknownIdentifier => "UnknownIdentifier"
  | disallowedOperator => "DisallowedOperator"
  | malformedLiteral => "MalformedLiteral"
  | unexpectedToken => "UnexpectedToken"
  | unexpectedEnd => "UnexpectedEnd"

end ErrorKind

/-- The first fault of a rule, and the piece of the source that shows it. -/
structure Error where
  token : String
  position : Nat
  kind : ErrorKind
  deriving Repr, DecidableEq

namespace Error

/-- The message for the reader of a rule. -/
def message (error : Error) : String :=
  s!"learning rule syntax error at position {error.position}: " ++
    s!"{error.kind.name} '{error.token}'"

end Error

/-- What a token stands for. -/
inductive TokenKind where
  | number (value : Nat)
  | trace (channel : Channel)
  | plus
  | minus
  | star
  | leftParen
  | rightParen
  deriving Repr, DecidableEq

/-- A token with its text and the byte at which it starts. -/
structure Token where
  kind : TokenKind
  text : String
  position : Nat
  deriving Repr, DecidableEq

namespace Token

/-- The complaint that a token cannot stand where it does. -/
def unexpected (token : Token) : Error :=
  { token := token.text, position := token.position, kind := .unexpectedToken }

/-- The characters of words. -/
def isWordChar (character : Char) : Bool :=
  character.isAlphanum || character == '_' || character == '.'

/-- The first characters of numbers. -/
def startsNumber (character : Char) : Bool :=
  character.isDigit || character == '.'

/-- Numbers stay below this bound. -/
def numberLimit : Nat := 9223372036854775808

/-- The value of a sequence of decimal digits. -/
def decimalValue (digits : List Char) : Nat :=
  digits.foldl (fun value digit => 10 * value + (digit.toNat - '0'.toNat)) 0

/-- The number a word denotes, if it has digits only and is not too large. -/
def number? (word : List Char) : Option Nat :=
  if word.all Char.isDigit ∧ decimalValue word < numberLimit then
    some (decimalValue word)
  else
    none

/-- The token made of a word that is a number or the name of a trace. -/
def ofWord (position : Nat) (first : Char) (word : List Char) : Except Error Token :=
  let text := String.ofList word
  if startsNumber first then
    match number? word with
    | some value => .ok ⟨.number value, text, position⟩
    | none => .error ⟨text, position, .malformedLiteral⟩
  else
    match Channel.ofName? text with
    | some channel => .ok ⟨.trace channel, text, position⟩
    | none => .error ⟨text, position, .unknownIdentifier⟩

/-- The operators and parentheses. -/
def ofSymbol? : Char → Option TokenKind
  | '+' => some .plus
  | '-' => some .minus
  | '*' => some .star
  | '(' => some .leftParen
  | ')' => some .rightParen
  | _ => none

/-- The tokens of a source that starts at the given byte. -/
def scan (position : Nat) (source : List Char) : Except Error (List Token) :=
  match source with
  | [] => .ok []
  | first :: rest =>
      if isBlank first then
        scan (position + first.utf8Size) rest
      else if isWordChar first then do
        let word := first :: rest.takeWhile isWordChar
        let token ← ofWord position first word
        let tokens ← scan (position + byteLength word) (rest.dropWhile isWordChar)
        return token :: tokens
      else
        let text := String.singleton first
        match ofSymbol? first with
        | none => .error ⟨text, position, .disallowedOperator⟩
        | some kind => do
            let tokens ← scan (position + first.utf8Size) rest
            return ⟨kind, text, position⟩ :: tokens
termination_by source.length
decreasing_by
  · simp
  · have := (List.dropWhile_sublist isWordChar (l := rest)).length_le
    simp only [List.length_cons]
    omega
  · simp

/-- The tokens of a rule. -/
def ofSource (source : String) : Except Error (List Token) :=
  scan 0 source.toList

end Token

end Neurochip.Rule
