import Neurochip.Rule.Parser

namespace Neurochip.Rule

/-!
# The grammar of learning rules

A sum is made of products, a product of operands, and an operand is a number, a
trace, a negated operand or a sum in parentheses.  `Derives` says which tokens
make up which tree, within a bound on the nesting of parentheses and negations.
The main statement says that the parser accepts every derivation and answers
its tree.
-/

/-- The three kinds of phrases. -/
inductive Phrase where
  | sum
  | product
  | operand
  deriving Repr, DecidableEq

/-- Tokens that make up a phrase with a tree, nested at most as deep as the bound. -/
inductive Derives : Nat → Phrase → List TokenKind → Expr → Prop where
  | number (bound value : Nat) :
      Derives bound .operand [.number value] (.literal value)
  | trace (bound : Nat) (channel : Channel) :
      Derives bound .operand [.trace channel] (.trace channel)
  | negation {bound : Nat} {tokens : List TokenKind} {expr : Expr} :
      Derives bound .operand tokens expr →
      Derives (bound + 1) .operand (.minus :: tokens) expr.negate
  | parentheses {bound : Nat} {tokens : List TokenKind} {expr : Expr} :
      Derives bound .sum tokens expr →
      Derives (bound + 1) .operand (.leftParen :: (tokens ++ [.rightParen])) expr
  | factor {bound : Nat} {tokens : List TokenKind} {expr : Expr} :
      Derives bound .operand tokens expr →
      Derives bound .product tokens expr
  | times {bound : Nat} {first second : List TokenKind} {left right : Expr} :
      Derives bound .product first left →
      Derives bound .operand second right →
      Derives bound .product (first ++ .star :: second) (.binary .mul left right)
  | term {bound : Nat} {tokens : List TokenKind} {expr : Expr} :
      Derives bound .product tokens expr →
      Derives bound .sum tokens expr
  | plus {bound : Nat} {first second : List TokenKind} {left right : Expr} :
      Derives bound .sum first left →
      Derives bound .product second right →
      Derives bound .sum (first ++ .plus :: second) (.binary .add left right)
  | minus {bound : Nat} {first second : List TokenKind} {left right : Expr} :
      Derives bound .sum first left →
      Derives bound .product second right →
      Derives bound .sum (first ++ .minus :: second) (.binary .sub left right)

namespace Progress

/-- The parser after some more tokens, or `none` if one of them cannot stand where it does. -/
def advanceAll? (progress : Progress) : List TokenKind → Option Progress
  | [] => some progress
  | kind :: rest =>
      match progress.advance? kind with
      | some next => next.advanceAll? rest
      | none => none

/-- Tokens can be read in two parts. -/
theorem advanceAll?_append (progress : Progress) (first second : List TokenKind) :
    progress.advanceAll? (first ++ second) =
      (progress.advanceAll? first).bind (·.advanceAll? second) := by
  induction first generalizing progress with
  | nil => rfl
  | cons kind rest inductionHypothesis =>
      simp only [List.cons_append, advanceAll?]
      split
      · exact inductionHypothesis _
      · rfl

/-- One more negation nests one deeper. -/
theorem nesting_negation (level : Level) (outer : List Level) :
    nesting { level with negations := level.negations + 1 } outer = nesting level outer + 1 := by
  simp [nesting]
  omega

/-- One more parenthesis nests one deeper. -/
theorem nesting_parenthesis (level : Level) (outer : List Level) :
    nesting {} (level :: outer) = nesting level outer + 1 := by
  simp [nesting]
  omega

/-- Negations that have been dealt with nest no more. -/
theorem nesting_settled_le (level : Level) (sum : Option (Expr × Operator)) (outer : List Level) :
    nesting { sum := sum } outer ≤ nesting level outer := by
  simp [nesting]

/-- What reading a phrase leads to where an operand is awaited. -/
def Completes
    (phrase : Phrase)
    (level : Level)
    (outer : List Level)
    (expr : Expr)
    (result : Option Progress) :
    Prop :=
  match phrase with
  | .operand =>
      result = some (supply level outer expr)
  | .product =>
      level.product = none → level.negations = 0 →
        result = some (holding { sum := level.sum } outer expr)
  | .sum =>
      level = {} →
        ∃ sum product,
          result = some (holding { sum := sum } outer product) ∧
            Level.total { sum := sum } product = expr

/-- Reading a phrase completes it, if there is room for its nesting. -/
theorem completes_of_derives
    {bound : Nat}
    {phrase : Phrase}
    {tokens : List TokenKind}
    {expr : Expr}
    (derivation : Derives bound phrase tokens expr) :
    ∀ level outer,
      nesting level outer + bound ≤ maxNesting →
        Completes phrase level outer expr
          ((awaiting level outer).advanceAll? tokens) := by
  induction derivation with
  | number bound value =>
      intro level outer _
      rfl
  | trace bound channel =>
      intro level outer _
      rfl
  | negation derivation inductionHypothesis =>
      intro level outer room
      have deeper := inductionHypothesis { level with negations := level.negations + 1 } outer
        (by rw [nesting_negation]; omega)
      have allowed : nesting level outer < maxNesting := by omega
      simp only [Completes, advanceAll?, advance?, allowed, if_true] at deeper ⊢
      rw [deeper]
      cases level
      rfl
  | parentheses derivation inductionHypothesis =>
      intro level outer room
      obtain ⟨sum, product, reached, total⟩ :=
        inductionHypothesis {} (level :: outer) (by rw [nesting_parenthesis]; omega) rfl
      have allowed : nesting level outer < maxNesting := by omega
      simp only [Completes, advanceAll?, advance?, allowed, if_true, advanceAll?_append, reached,
        Option.bind_some, total]
  | factor derivation inductionHypothesis =>
      intro level outer room noProduct noNegations
      rw [inductionHypothesis level outer room]
      simp [supply, Level.complete, noProduct, noNegations, Expr.negateTimes]
  | times first second firstHypothesis secondHypothesis =>
      rename_i bound tokens others left right
      intro level outer room noProduct noNegations
      rw [advanceAll?_append, firstHypothesis level outer room noProduct noNegations]
      simp only [Option.bind_some, advanceAll?, advance?]
      have settled := nesting_settled_le level level.sum outer
      rw [secondHypothesis { sum := level.sum, product := some left } outer (by
        simp only [nesting, tally_cons] at settled room ⊢
        omega)]
      rfl
  | term derivation inductionHypothesis =>
      intro level outer room start
      subst start
      exact ⟨none, _, inductionHypothesis {} outer room rfl rfl, rfl⟩
  | plus first second firstHypothesis secondHypothesis =>
      intro level outer room start
      subst start
      obtain ⟨sum, product, reached, total⟩ := firstHypothesis {} outer room rfl
      rw [advanceAll?_append, reached]
      simp only [Option.bind_some, advanceAll?, advance?, total]
      exact ⟨_, _, secondHypothesis _ outer (by simpa [nesting] using room) rfl rfl, rfl⟩
  | minus first second firstHypothesis secondHypothesis =>
      intro level outer room start
      subst start
      obtain ⟨sum, product, reached, total⟩ := firstHypothesis {} outer room rfl
      rw [advanceAll?_append, reached]
      simp only [Option.bind_some, advanceAll?, advance?, total]
      exact ⟨_, _, secondHypothesis _ outer (by simpa [nesting] using room) rfl rfl, rfl⟩

/-- The parser is in one place after all tokens exactly when their kinds lead there. -/
theorem read_eq_ok_iff {progress reached : Progress} {tokens : List Token} :
    progress.read tokens = .ok reached ↔
      progress.advanceAll? (tokens.map Token.kind) = some reached := by
  induction tokens generalizing progress with
  | nil => simp [read, advanceAll?]
  | cons token rest inductionHypothesis =>
      simp only [read, List.map_cons, advanceAll?]
      cases progress.advance? token.kind with
      | none => simp
      | some next => exact inductionHypothesis

end Progress

/-- The parser answers the tree of every derivation within the bounds on nesting and length. -/
theorem Expr.ofTokens_of_derives
    {tokens : List Token}
    {expr : Expr}
    (derivation : Derives Progress.maxNesting .sum (tokens.map Token.kind) expr)
    (short : tokens.length ≤ Expr.maxTokens)
    (length : Nat) :
    Expr.ofTokens tokens length = .ok expr := by
  obtain ⟨sum, product, reached, total⟩ :=
    Progress.completes_of_derives derivation {} [] (by simp [Progress.nesting]) rfl
  have finished : Progress.start.read tokens = .ok (.holding { sum := sum } [] product) :=
    Progress.read_eq_ok_iff.mpr reached
  unfold Expr.ofTokens
  rw [List.getElem?_eq_none_iff.mpr short, finished]
  simp [bind, Except.bind, Progress.finish?, total, pure, Except.pure]

end Neurochip.Rule
