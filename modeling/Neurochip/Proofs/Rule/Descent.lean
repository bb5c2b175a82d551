import Neurochip.Rule.Parser

namespace Neurochip.Rule.Descent

/-!
# Parsing by recursive descent

The parser keeps a list of levels in place of nested calls.  Here the calls are
made: a sum calls for products, a product for operands, and an operand for a
negated operand or a sum in parentheses.  Every call is for fewer tokens or for
a smaller kind of phrase, so there is an answer for all tokens.  A run also
tells what happens on the way: how deep calls nest, what is negated, which trees
are built and how many calls there are.
-/

/-- Something that happens during a run. -/
inductive Event where
  /-- A parenthesis or a negation is entered, with which so many are open. -/
  | enters (depth : Nat)
  | negates (operand : Expr)
  | builds (expr : Expr)
  deriving Repr, DecidableEq

/-- The tree of a phrase, and the tokens behind it. -/
structure Parsed (tokens : List Token) where
  expr : Expr
  rest : List Token
  suffix : rest <:+ tokens

/-- What happens while a phrase is parsed at the start of some tokens, in how many calls, and what
it comes to. -/
structure Run (tokens : List Token) where
  trail : List Event
  calls : Nat
  outcome : Except Error (Parsed tokens)

namespace Run

variable {tokens others rest : List Token}

/-- A run that fails at once. -/
def refuse (error : Error) : Run tokens :=
  { trail := [], calls := 0, outcome := .error error }

/-- A run that answers a tree. -/
def answer (expr : Expr) (rest : List Token) (suffix : rest <:+ tokens) : Run tokens :=
  { trail := [], calls := 0, outcome := .ok { expr := expr, rest := rest, suffix := suffix } }

/-- A run behind some events. -/
def after (events : List Event) (run : Run tokens) : Run tokens :=
  { run with trail := events ++ run.trail }

/-- A run that is a call. -/
def call (run : Run tokens) : Run tokens :=
  { run with calls := run.calls + 1 }

/-- A run on the last ones of some tokens. -/
def within (run : Run others) (suffix : others <:+ tokens) : Run tokens :=
  { trail := run.trail
    calls := run.calls
    outcome := run.outcome.map fun parsed =>
      { expr := parsed.expr, rest := parsed.rest, suffix := parsed.suffix.trans suffix } }

/-- A run that goes on with what another one has answered. -/
def andThen (run : Run others) (next : Parsed others → Run tokens) : Run tokens :=
  match run.outcome with
  | .error error => { trail := run.trail, calls := run.calls, outcome := .error error }
  | .ok parsed =>
      { trail := run.trail ++ (next parsed).trail
        calls := run.calls + (next parsed).calls
        outcome := (next parsed).outcome }

/-- A run that goes on behind a first part. -/
def beginWith (part : Run tokens) (loop : (first : Parsed tokens) → Run first.rest) : Run tokens :=
  part.andThen fun first => (loop first).within first.suffix

/-- A run that goes on behind an operator and a further part, which it joins to what is there. -/
def extendBy
    (token : Token)
    (operator : Operator)
    (left : Expr)
    (part : Run rest)
    (loop : (right : Parsed rest) → Run right.rest) :
    Run (token :: rest) :=
  part.andThen fun right =>
    ((loop right).within (right.suffix.trans (List.suffix_cons token rest))).after
      [.builds (.binary operator left right.expr)]

/-- A run for a leaf. -/
def leaf (token : Token) (expr : Expr) (rest : List Token) : Run (token :: rest) :=
  (answer expr rest (List.suffix_cons token rest)).after [.builds expr]

/-- A run inside a parenthesis or behind a negation. -/
def enter (token : Token) (depth : Nat) (inner : Run rest) : Run (token :: rest) :=
  (inner.within (List.suffix_cons token rest)).after [.enters depth]

end Run

/-- The complaint that there are no more tokens. -/
def unexpectedEnd (length : Nat) : Error :=
  { token := "<end>", position := length, kind := .unexpectedEnd }

/-- The operations of sums. -/
def additive? : TokenKind → Option Operator
  | .plus => some .add
  | .minus => some .sub
  | _ => none

/-- The negation of an operand. -/
def negated {tokens : List Token} (operand : Parsed tokens) : Run tokens :=
  (Run.answer operand.expr.negate operand.rest operand.suffix).after
    [.negates operand.expr, .builds operand.expr.negate]

/-- A sum in parentheses ends with the right one. -/
def close (length : Nat) {tokens : List Token} (inner : Parsed tokens) : Run tokens :=
  match rest : inner.rest with
  | [] => .refuse (unexpectedEnd length)
  | closing :: others =>
      if closing.kind = .rightParen then
        .answer inner.expr others
          ((List.suffix_cons closing others).trans (rest ▸ inner.suffix))
      else
        .refuse closing.unexpected

mutual

/-- Parses a product and the further ones that are added to it or subtracted. -/
def sum (length depth : Nat) (tokens : List Token) : Run tokens :=
  .call ((product length depth tokens).beginWith fun first =>
    addends length depth first.expr first.rest)
termination_by 3 * tokens.length + 2
decreasing_by
  · omega
  · have shorter := first.suffix.length_le
    omega

/-- Parses the products that are added to what is there or subtracted from it. -/
def addends (length depth : Nat) (left : Expr) (tokens : List Token) : Run tokens :=
  match tokens with
  | [] => .call (.answer left [] (List.suffix_refl _))
  | token :: rest =>
      match additive? token.kind with
      | none => .call (.answer left (token :: rest) (List.suffix_refl _))
      | some operator =>
          .call (.extendBy token operator left (product length depth rest) fun right =>
            addends length depth (.binary operator left right.expr) right.rest)
termination_by 3 * tokens.length
decreasing_by
  · simp only [List.length_cons]
    omega
  · have shorter := right.suffix.length_le
    simp only [List.length_cons]
    omega

/-- Parses an operand and the further ones that it is multiplied by. -/
def product (length depth : Nat) (tokens : List Token) : Run tokens :=
  .call ((operand length depth tokens).beginWith fun first =>
    factors length depth first.expr first.rest)
termination_by 3 * tokens.length + 1
decreasing_by
  · omega
  · have shorter := first.suffix.length_le
    omega

/-- Parses the operands that what is there is multiplied by. -/
def factors (length depth : Nat) (left : Expr) (tokens : List Token) : Run tokens :=
  match tokens with
  | [] => .call (.answer left [] (List.suffix_refl _))
  | token :: rest =>
      if token.kind = .star then
        .call (.extendBy token .mul left (operand length depth rest) fun right =>
          factors length depth (.binary .mul left right.expr) right.rest)
      else
        .call (.answer left (token :: rest) (List.suffix_refl _))
termination_by 3 * tokens.length
decreasing_by
  · simp only [List.length_cons]
    omega
  · have shorter := right.suffix.length_le
    simp only [List.length_cons]
    omega

/-- Parses a number, a trace, a negated operand or a sum in parentheses. -/
def operand (length depth : Nat) (tokens : List Token) : Run tokens :=
  match tokens with
  | [] => .call (.refuse (unexpectedEnd length))
  | token :: rest =>
      match token.kind with
      | .number value => .call (.leaf token (.literal value) rest)
      | .trace channel => .call (.leaf token (.trace channel) rest)
      | .minus =>
          if depth = Progress.maxNesting then
            .call (.refuse token.unexpected)
          else
            .call (.enter token (depth + 1) ((operand length (depth + 1) rest).andThen negated))
      | .leftParen =>
          if depth = Progress.maxNesting then
            .call (.refuse token.unexpected)
          else
            .call (.enter token (depth + 1)
              ((sum length (depth + 1) rest).andThen (close length)))
      | _ => .call (.refuse token.unexpected)
termination_by 3 * tokens.length
decreasing_by
  all_goals
    simp only [List.length_cons]
    omega

end

/-- What happens while a rule is parsed, in how many calls, and what it comes to. -/
structure Report where
  trail : List Event
  calls : Nat
  outcome : Except Error Expr

/-- No tokens are left behind the sum that is a rule. -/
def finish {tokens : List Token} (parsed : Parsed tokens) : Except Error Expr :=
  match parsed.rest with
  | [] => .ok parsed.expr
  | token :: _ => .error token.unexpected

/-- Parses a rule, unless there are too many tokens. -/
def parse (tokens : List Token) (length : Nat) : Report :=
  match tokens[Expr.maxTokens]? with
  | some token => { trail := [], calls := 0, outcome := .error token.unexpected }
  | none =>
      let run := sum length 0 tokens
      { trail := run.trail, calls := run.calls, outcome := run.outcome.bind finish }

section

variable {length depth : Nat} {left : Expr} {token : Token} {rest : List Token}

@[simp] theorem addends_nil :
    addends length depth left [] = (Run.answer left [] (List.suffix_refl _)).call := by
  rw [addends]

theorem addends_of_other (other : additive? token.kind = none) :
    addends length depth left (token :: rest) =
      (Run.answer left (token :: rest) (List.suffix_refl _)).call := by
  rw [addends]
  simp only [other]

theorem addends_of_operator {operator : Operator} (continues : additive? token.kind = some operator) :
    addends length depth left (token :: rest) =
      (Run.extendBy token operator left (product length depth rest) fun right =>
        addends length depth (.binary operator left right.expr) right.rest).call := by
  rw [addends]
  simp only [continues]

@[simp] theorem factors_nil :
    factors length depth left [] = (Run.answer left [] (List.suffix_refl _)).call := by
  rw [factors]

theorem factors_of_other (other : token.kind ≠ .star) :
    factors length depth left (token :: rest) =
      (Run.answer left (token :: rest) (List.suffix_refl _)).call := by
  rw [factors, if_neg other]

theorem factors_of_star (star : token.kind = .star) :
    factors length depth left (token :: rest) =
      (Run.extendBy token .mul left (operand length depth rest) fun right =>
        factors length depth (.binary .mul left right.expr) right.rest).call := by
  rw [factors, if_pos star]

@[simp] theorem operand_nil :
    operand length depth [] = (Run.refuse (unexpectedEnd length)).call := by
  rw [operand]

theorem operand_of_number {value : Nat} (number : token.kind = .number value) :
    operand length depth (token :: rest) = (Run.leaf token (.literal value) rest).call := by
  rw [operand]
  simp only [number]

theorem operand_of_trace {channel : Channel} (trace : token.kind = .trace channel) :
    operand length depth (token :: rest) = (Run.leaf token (.trace channel) rest).call := by
  rw [operand]
  simp only [trace]

/-- Neither a negation nor a parenthesis is entered at the greatest depth. -/
theorem operand_of_deepest (nests : token.kind = .minus ∨ token.kind = .leftParen) :
    operand length Progress.maxNesting (token :: rest) =
      (Run.refuse token.unexpected).call := by
  rw [operand]
  rcases nests with kind | kind <;> simp only [kind, if_true]

theorem operand_of_minus (minus : token.kind = .minus) (shallow : depth ≠ Progress.maxNesting) :
    operand length depth (token :: rest) =
      (Run.enter token (depth + 1) ((operand length (depth + 1) rest).andThen negated)).call := by
  rw [operand]
  simp only [minus, if_neg shallow]

theorem operand_of_leftParen
    (leftParen : token.kind = .leftParen)
    (shallow : depth ≠ Progress.maxNesting) :
    operand length depth (token :: rest) =
      (Run.enter token (depth + 1)
        ((sum length (depth + 1) rest).andThen (close length))).call := by
  rw [operand]
  simp only [leftParen, if_neg shallow]

/-- The other tokens are no beginning of an operand. -/
theorem operand_of_other
    (notNumber : ∀ value, token.kind ≠ .number value)
    (notTrace : ∀ channel, token.kind ≠ .trace channel)
    (notMinus : token.kind ≠ .minus)
    (notLeftParen : token.kind ≠ .leftParen) :
    operand length depth (token :: rest) = (Run.refuse token.unexpected).call := by
  rw [operand]
  cases kind : token.kind with
  | number value => exact absurd kind (notNumber value)
  | trace channel => exact absurd kind (notTrace channel)
  | minus => exact absurd kind notMinus
  | leftParen => exact absurd kind notLeftParen
  | plus | star | rightParen => rfl

end

namespace Run

variable {tokens others : List Token}

theorem andThen_of_ok
    {run : Run others}
    {first : Parsed others}
    (answered : run.outcome = .ok first)
    (next : Parsed others → Run tokens) :
    run.andThen next =
      { trail := run.trail ++ (next first).trail
        calls := run.calls + (next first).calls
        outcome := (next first).outcome } := by
  rw [andThen, answered]

theorem andThen_of_error
    {run : Run others}
    {error : Error}
    (refused : run.outcome = .error error)
    (next : Parsed others → Run tokens) :
    run.andThen next =
      { trail := run.trail, calls := run.calls, outcome := .error error } := by
  rw [andThen, refused]

/-- What a run answers on the last ones of some tokens, it answers on these alone. -/
theorem exists_of_within
    {run : Run others}
    {suffix : others <:+ tokens}
    {parsed : Parsed tokens}
    (answered : (run.within suffix).outcome = .ok parsed) :
    ∃ inner, run.outcome = .ok inner ∧ parsed.expr = inner.expr ∧ parsed.rest = inner.rest := by
  unfold within at answered
  cases outcome : run.outcome with
  | error error => simp [outcome, Except.map] at answered
  | ok inner =>
      simp only [outcome, Except.map, Except.ok.injEq] at answered
      obtain rfl := answered
      exact ⟨inner, rfl, rfl, rfl⟩

end Run

end Neurochip.Rule.Descent
