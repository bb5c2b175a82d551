import Neurochip.Rule.Expr
import Neurochip.Rule.Token
import Neurochip.Tally

namespace Neurochip.Rule

/-!
# Parsing learning rules

The grammar has sums of products of operands; an operand is a number, a trace,
a parenthesised sum or a negated operand.  The parser reads the tokens once from
left to right.  It keeps, for each open parenthesis, what stands to the left of
the operand that is being read, so it fails at the first token that no rule can
have there.  Open parentheses and pending negations nest at most 64 deep.
-/

/-- What stands to the left of an operand within one pair of parentheses. -/
structure Level where
  /-- The sum so far and the operator that follows it. -/
  sum : Option (Expr × Operator) := none
  /-- The product so far, whose next factor is awaited. -/
  product : Option Expr := none
  /-- The negations that apply to the next operand. -/
  negations : Nat := 0
  deriving Repr, DecidableEq

namespace Level

/-- The product that ends with the given operand. -/
def complete (level : Level) (operand : Expr) : Expr :=
  let factor := Expr.negateTimes level.negations operand
  match level.product with
  | none => factor
  | some product => .binary .mul product factor

/-- The sum that ends with the given product. -/
def total (level : Level) (product : Expr) : Expr :=
  match level.sum with
  | none => product
  | some (sum, operator) => .binary operator sum product

end Level

/-- Where the parser stands: the innermost level, the levels around it, and the product just read. -/
inductive Progress where
  | awaiting (level : Level) (outer : List Level)
  | holding (level : Level) (outer : List Level) (product : Expr)
  deriving Repr, DecidableEq

namespace Progress

/-- The parser before the first token. -/
def start : Progress :=
  awaiting {} []

/-- Open parentheses and pending negations nest at most this deep. -/
def maxNesting : Nat := 64

/-- The number of open parentheses and pending negations. -/
def nesting (level : Level) (outer : List Level) : Nat :=
  outer.length + tally Level.negations (level :: outer)

/-- The parser after an operand. -/
def supply (level : Level) (outer : List Level) (operand : Expr) : Progress :=
  holding { sum := level.sum } outer (level.complete operand)

/-- The parser after one more token, or `none` if the token cannot stand here. -/
def advance? : Progress → TokenKind → Option Progress
  | awaiting level outer, .number value =>
      some (supply level outer (.literal value))
  | awaiting level outer, .trace channel =>
      some (supply level outer (.trace channel))
  | awaiting level outer, .minus =>
      if nesting level outer < maxNesting then
        some (awaiting { level with negations := level.negations + 1 } outer)
      else
        none
  | awaiting level outer, .leftParen =>
      if nesting level outer < maxNesting then
        some (awaiting {} (level :: outer))
      else
        none
  | awaiting _ _, _ => none
  | holding level outer product, .star =>
      some (awaiting { sum := level.sum, product := some product } outer)
  | holding level outer product, .plus =>
      some (awaiting { sum := some (level.total product, .add) } outer)
  | holding level outer product, .minus =>
      some (awaiting { sum := some (level.total product, .sub) } outer)
  | holding level (next :: outer) product, .rightParen =>
      some (supply next outer (level.total product))
  | holding _ _ _, _ => none

/-- The tree of a finished rule, or `none` if more tokens are needed. -/
def finish? : Progress → Option Expr
  | holding level [] product => some (level.total product)
  | _ => none

/-- Reads tokens up to the first one that cannot stand where it does. -/
def read (progress : Progress) : List Token → Except Error Progress
  | [] => .ok progress
  | token :: rest =>
      match progress.advance? token.kind with
      | some next => next.read rest
      | none => .error token.unexpected

end Progress

namespace Expr

/-- Rules have at most this many tokens, which also bounds the height of their trees. -/
def maxTokens : Nat := 1024

/-- The tree of a rule given by its tokens; `length` is the length of its source in bytes. -/
def ofTokens (tokens : List Token) (length : Nat) : Except Error Expr :=
  match tokens[maxTokens]? with
  | some token => .error token.unexpected
  | none => do
      let progress ← Progress.start.read tokens
      match progress.finish? with
      | some expr => return expr
      | none => throw { token := "<end>", position := length, kind := .unexpectedEnd }

end Expr

end Neurochip.Rule
