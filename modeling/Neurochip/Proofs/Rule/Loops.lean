import Mathlib.Data.List.Induction
import Neurochip.Rule.Grammar

namespace Neurochip.Rule

/-!
# Sums and products are loops

The grammar builds a sum from a shorter one and a product from a shorter one.
The same phrases can be read as loops: a first part, and any number of further
parts, each behind an operator of its own.  The tree of such a loop leans to the
left.
-/

/-- The token of an operation. -/
def Operator.token : Operator → TokenKind
  | add => .plus
  | sub => .minus
  | mul => .star

/-- A further part of a sum or a product, behind the operator that joins it to the parts before. -/
structure Link where
  operator : Operator
  tokens : List TokenKind
  expr : Expr

namespace Link

/-- The tokens of a first part and some further ones. -/
def allTokens (first : List TokenKind) (links : List Link) : List TokenKind :=
  first ++ links.flatMap fun link => link.operator.token :: link.tokens

/-- The tree of a first part and some further ones, each applied to all that is before it. -/
def tree (first : Expr) (links : List Link) : Expr :=
  links.foldl (fun left link => .binary link.operator left link.expr) first

end Link

/-- Tokens with a tree that are a first part and any number of further parts behind operators. -/
def Loop
    (allowed : Operator → Prop)
    (part : List TokenKind → Expr → Prop)
    (tokens : List TokenKind)
    (expr : Expr) :
    Prop :=
  ∃ firstTokens firstExpr links,
    part firstTokens firstExpr ∧
      (∀ link ∈ links, allowed link.operator ∧ part link.tokens link.expr) ∧
      tokens = Link.allTokens firstTokens links ∧
      expr = Link.tree firstExpr links

namespace Loop

variable {allowed : Operator → Prop} {part whole : List TokenKind → Expr → Prop}

theorem once
    {tokens : List TokenKind}
    {expr : Expr}
    (first : part tokens expr) :
    Loop allowed part tokens expr :=
  ⟨tokens, expr, [], first, by simp, by simp [Link.allTokens], rfl⟩

theorem again
    {first second : List TokenKind}
    {left right : Expr}
    (loop : Loop allowed part first left)
    {operator : Operator}
    (joins : allowed operator)
    (last : part second right) :
    Loop allowed part (first ++ operator.token :: second)
      (.binary operator left right) := by
  obtain ⟨tokens, expr, links, start, each, rfl, rfl⟩ := loop
  refine ⟨tokens, expr, links ++ [⟨operator, second, right⟩], start, ?_, ?_, ?_⟩
  · intro link member
    rcases List.mem_append.mp member with earlier | atEnd
    · exact each link earlier
    · obtain rfl := List.mem_singleton.mp atEnd
      exact ⟨joins, last⟩
  · simp [Link.allTokens]
  · simp [Link.tree]

/-- What holds of a first part, and is kept by each further part, holds of a loop. -/
theorem elim
    (first : ∀ tokens expr, part tokens expr → whole tokens expr)
    (further : ∀ tokens expr operator second right,
      whole tokens expr → allowed operator → part second right →
        whole (tokens ++ operator.token :: second) (.binary operator expr right))
    {tokens : List TokenKind}
    {expr : Expr}
    (loop : Loop allowed part tokens expr) :
    whole tokens expr := by
  obtain ⟨firstTokens, firstExpr, links, start, each, rfl, rfl⟩ := loop
  induction links using List.reverseRecOn with
  | nil => simpa [Link.allTokens, Link.tree] using first _ _ start
  | append_singleton earlier last inductionHypothesis =>
      have before := inductionHypothesis fun link member =>
        each link (List.mem_append_left _ member)
      obtain ⟨joins, part⟩ := each last (by simp)
      simpa [Link.allTokens, Link.tree] using further _ _ _ _ _ before joins part

end Loop

/-- Both operations of sums continue a sum by one product. -/
theorem Derives.extend
    {bound : Nat}
    {first second : List TokenKind}
    {left right : Expr}
    (sum : Derives bound .sum first left)
    {operator : Operator}
    (additive : operator ≠ .mul)
    (product : Derives bound .product second right) :
    Derives bound .sum (first ++ operator.token :: second)
      (.binary operator left right) := by
  cases operator with
  | add => exact .plus sum product
  | sub => exact .minus sum product
  | mul => exact absurd rfl additive

/-- A derived sum is a loop over products, and a derived product a loop over operands. -/
theorem Derives.loop
    {bound : Nat}
    {phrase : Phrase}
    {tokens : List TokenKind}
    {expr : Expr}
    (derivation : Derives bound phrase tokens expr) :
    match phrase with
    | .sum => Loop (· ≠ .mul) (Derives bound .product) tokens expr
    | .product => Loop (· = .mul) (Derives bound .operand) tokens expr
    | .operand => True := by
  induction derivation with
  | number | trace | negation | parentheses => trivial
  | factor operand => exact .once operand
  | times _ operand inductionHypothesis => exact inductionHypothesis.again rfl operand
  | term product => exact .once product
  | plus _ product inductionHypothesis =>
      have additive : Operator.add ≠ .mul := by decide
      exact inductionHypothesis.again additive product
  | minus _ product inductionHypothesis =>
      have additive : Operator.sub ≠ .mul := by decide
      exact inductionHypothesis.again additive product

theorem derives_sum_iff
    {bound : Nat}
    {tokens : List TokenKind}
    {expr : Expr} :
    Derives bound .sum tokens expr ↔
      Loop (· ≠ .mul) (Derives bound .product) tokens expr :=
  ⟨fun derivation => derivation.loop,
    Loop.elim (fun _ _ => .term) fun _ _ _ _ _ sum additive product =>
      sum.extend additive product⟩

theorem derives_product_iff
    {bound : Nat}
    {tokens : List TokenKind}
    {expr : Expr} :
    Derives bound .product tokens expr ↔
      Loop (· = .mul) (Derives bound .operand) tokens expr := by
  refine ⟨fun derivation => derivation.loop, Loop.elim (fun _ _ => .factor) ?_⟩
  rintro tokens expr operator second right product rfl operand
  exact .times product operand

end Neurochip.Rule
