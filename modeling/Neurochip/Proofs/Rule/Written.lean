import Neurochip.Proofs.Rule.Loops

namespace Neurochip.Rule

/-!
# Rules as they are written

A written expression keeps what the tree of a rule forgets: its negations and
its parentheses.  Negation binds tightest and products bind tighter than sums;
operators of one kind associate to the left.  The main statements say that
tokens can be read as one expression at most, and that the tokens that the
grammar derives a tree from are written ones.
-/

/-- Different operations have different tokens. -/
theorem Operator.token_inj {first second : Operator} (same : first.token = second.token) :
    first = second := by
  cases first <;> cases second <;> first | rfl | cases same

/-- An expression as it is written. -/
inductive Written where
  | number (value : Nat)
  | trace (channel : Channel)
  | negated (operand : Written)
  | parenthesised (inner : Written)
  | joined (operator : Operator) (left right : Written)
  deriving Repr, DecidableEq

namespace Written

/-- The tokens of an expression, from left to right. -/
def tokens : Written → List TokenKind
  | number value => [.number value]
  | trace channel => [.trace channel]
  | negated operand => .minus :: operand.tokens
  | parenthesised inner => .leftParen :: (inner.tokens ++ [.rightParen])
  | joined operator left right => left.tokens ++ operator.token :: right.tokens

/-- The tree of an expression, in which negations have become numbers and differences. -/
def tree : Written → Expr
  | number value => .literal value
  | trace channel => .trace channel
  | negated operand => operand.tree.negate
  | parenthesised inner => inner.tree
  | joined operator left right => .binary operator left.tree right.tree

/-- The expressions that may stand as a phrase by the usual precedence and association. -/
inductive Fits : Phrase → Written → Prop where
  | number (value : Nat) : Fits .operand (number value)
  | trace (channel : Channel) : Fits .operand (trace channel)
  | negated {operand : Written} :
      Fits .operand operand →
      Fits .operand (negated operand)
  | parenthesised {inner : Written} :
      Fits .sum inner →
      Fits .operand (parenthesised inner)
  | factor {operand : Written} :
      Fits .operand operand →
      Fits .product operand
  | multiplied {left right : Written} :
      Fits .product left →
      Fits .operand right →
      Fits .product (joined .mul left right)
  | term {product : Written} :
      Fits .product product →
      Fits .sum product
  | added {operator : Operator} {left right : Written} :
      operator ≠ .mul →
      Fits .sum left →
      Fits .product right →
      Fits .sum (joined operator left right)

/-- A further part of a sum or a product, with the operator in front of it. -/
abbrev Further : Type :=
  Operator × Written

/-- A first part with further ones, each joined to all that is before it. -/
def joinAll (first : Written) : List Further → Written
  | [] => first
  | (operator, part) :: rest => joinAll (joined operator first part) rest

/-- The tokens of further parts. -/
def furtherTokens (further : List Further) : List TokenKind :=
  further.flatMap fun (operator, part) => operator.token :: part.tokens

theorem tokens_joinAll (first : Written) (further : List Further) :
    (joinAll first further).tokens = first.tokens ++ furtherTokens further := by
  induction further generalizing first with
  | nil => simp [joinAll, furtherTokens]
  | cons link rest inductionHypothesis =>
      simp [joinAll, inductionHypothesis, tokens, furtherTokens]

theorem joinAll_concat
    (first : Written)
    (further : List Further)
    (operator : Operator)
    (part : Written) :
    joinAll first (further ++ [(operator, part)]) =
      joined operator (joinAll first further) part := by
  induction further generalizing first with
  | nil => rfl
  | cons link rest inductionHypothesis => exact inductionHypothesis _

/-- Further parts that are joined by allowed operators. -/
def AllParts
    (allowed : Operator → Prop)
    (part : Written → Prop)
    (further : List Further) :
    Prop :=
  ∀ link ∈ further, allowed link.1 ∧ part link.2

/-- A product is a first operand with further ones. -/
theorem Fits.exists_factors {written : Written} (fits : written.Fits .product) :
    ∃ first further,
      first.Fits .operand ∧
      AllParts (· = .mul) (Fits .operand) further ∧
      written = joinAll first further := by
  generalize whole : Phrase.product = phrase at fits
  induction fits with
  | number | trace | negated | parenthesised | term | added => cases whole
  | @factor operand fits => exact ⟨operand, [], fits, by simp [AllParts], rfl⟩
  | multiplied _ rightFits leftHypothesis =>
      obtain ⟨first, further, firstFits, each, rfl⟩ := leftHypothesis rfl
      refine ⟨first, further ++ [_], firstFits, ?_, (joinAll_concat ..).symm⟩
      exact List.forall_mem_append.mpr ⟨each, List.forall_mem_singleton.mpr ⟨rfl, rightFits⟩⟩

/-- A sum is a first product with further ones. -/
theorem Fits.exists_terms {written : Written} (fits : written.Fits .sum) :
    ∃ first further,
      first.Fits .product ∧
      AllParts (· ≠ .mul) (Fits .product) further ∧
      written = joinAll first further := by
  generalize whole : Phrase.sum = phrase at fits
  induction fits with
  | number | trace | negated | parenthesised | factor | multiplied => cases whole
  | @term product fits => exact ⟨product, [], fits, by simp [AllParts], rfl⟩
  | added additive _ rightFits leftHypothesis =>
      obtain ⟨first, further, firstFits, each, rfl⟩ := leftHypothesis rfl
      refine ⟨first, further ++ [_], firstFits, ?_, (joinAll_concat ..).symm⟩
      exact List.forall_mem_append.mpr
        ⟨each, List.forall_mem_singleton.mpr ⟨additive, rightFits⟩⟩

/-- The tokens behind one expression begin with further parts that make it the other one. -/
def GrowsTo
    (allowed : Operator → Prop)
    (part : Written → Prop)
    (small : Written)
    (behindSmall : List TokenKind)
    (large : Written)
    (behindLarge : List TokenKind) :
    Prop :=
  ∃ further,
    AllParts allowed part further ∧
    large = joinAll small further ∧
    behindSmall = furtherTokens further ++ behindLarge

section Growing

variable {allowed : Operator → Prop} {part : Written → Prop}

/-- Nothing grows by tokens that do not begin with an allowed operator. -/
theorem GrowsTo.eq_of_head
    {small large : Written}
    {behindSmall behindLarge : List TokenKind}
    (grows : GrowsTo allowed part small behindSmall large behindLarge)
    (stops : ∀ operator, allowed operator → behindSmall.head? ≠ some operator.token) :
    small = large ∧ behindSmall = behindLarge := by
  obtain ⟨further, each, rfl, rfl⟩ := grows
  cases further with
  | nil => exact ⟨rfl, rfl⟩
  | cons link rest =>
      have joins := (each link List.mem_cons_self).1
      exact absurd rfl (stops link.1 joins)

/-- Of two expressions one grows to the other, if this holds without the last part of the first one
and this part can be told from what stands in its place. -/
theorem grows_joined
    {left right other : Written}
    {behind behindOther : List TokenKind}
    {operator : Operator}
    (joins : allowed operator)
    (rightFits : part right)
    (told : ∀ last further,
      part last → AllParts allowed part further →
      right.tokens ++ behind = last.tokens ++ (furtherTokens further ++ behindOther) →
        right = last ∧ behind = furtherTokens further ++ behindOther)
    (grows :
      GrowsTo allowed part left (operator.token :: (right.tokens ++ behind)) other behindOther ∨
      GrowsTo allowed part other behindOther left (operator.token :: (right.tokens ++ behind))) :
    GrowsTo allowed part (joined operator left right) behind other behindOther ∨
    GrowsTo allowed part other behindOther (joined operator left right) behind := by
  rcases grows with ⟨further, each, rfl, same⟩ | ⟨further, each, rfl, same⟩
  · cases further with
    | nil =>
        -- The other expression ends before the last part of this one.
        refine .inr ⟨[(operator, right)], ?_, rfl, ?_⟩
        · exact List.forall_mem_singleton.mpr ⟨joins, rightFits⟩
        · simpa [furtherTokens] using same.symm
    | cons link rest =>
        obtain ⟨otherOperator, last⟩ := link
        obtain ⟨⟨_, lastFits⟩, restEach⟩ := List.forall_mem_cons.mp each
        simp only [furtherTokens, List.flatMap_cons, List.cons_append, List.append_assoc,
          List.cons.injEq] at same
        obtain rfl := Operator.token_inj same.1
        obtain ⟨rfl, rfl⟩ := told last rest lastFits restEach same.2
        exact .inl ⟨rest, restEach, rfl, rfl⟩
  · refine .inr ⟨further ++ [(operator, right)], ?_, (joinAll_concat ..).symm, ?_⟩
    · exact List.forall_mem_append.mpr
        ⟨each, List.forall_mem_singleton.mpr ⟨joins, rightFits⟩⟩
    · simp [same, furtherTokens]

end Growing

/-- What two expressions that fit a phrase have to do with each other, if the same tokens begin with
both of them. -/
def Compared
    (phrase : Phrase)
    (written : Written)
    (behind : List TokenKind)
    (other : Written)
    (behindOther : List TokenKind) :
    Prop :=
  match phrase with
  | .operand => written = other ∧ behind = behindOther
  | .product =>
      GrowsTo (· = .mul) (Fits .operand) written behind other behindOther ∨
      GrowsTo (· = .mul) (Fits .operand) other behindOther written behind
  | .sum =>
      behind.head? ≠ some .star → behindOther.head? ≠ some .star →
        GrowsTo (· ≠ .mul) (Fits .product) written behind other behindOther ∨
        GrowsTo (· ≠ .mul) (Fits .product) other behindOther written behind

/-- Products in front of tokens that multiply nothing are told from each other. -/
theorem eq_of_compared_products
    {written other : Written}
    {behind behindOther : List TokenKind}
    (compared : Compared .product written behind other behindOther)
    (stops : behind.head? ≠ some .star)
    (otherStops : behindOther.head? ≠ some .star) :
    written = other ∧ behind = behindOther := by
  rcases compared with grows | grows
  · refine grows.eq_of_head ?_
    rintro operator rfl
    exact stops
  · obtain ⟨rfl, rfl⟩ := grows.eq_of_head (by
      rintro operator rfl
      exact otherStops)
    exact ⟨rfl, rfl⟩

/-- Sums in front of a token that adds or multiplies nothing are told from each other. -/
theorem eq_of_compared_sums
    {written other : Written}
    {behind behindOther : List TokenKind}
    (compared : Compared .sum written behind other behindOther)
    (stops : ∀ operator : Operator, behind.head? ≠ some operator.token)
    (otherStops : ∀ operator : Operator, behindOther.head? ≠ some operator.token) :
    written = other ∧ behind = behindOther := by
  rcases compared (stops .mul) (otherStops .mul) with grows | grows
  · exact grows.eq_of_head fun operator _ => stops operator
  · obtain ⟨rfl, rfl⟩ := grows.eq_of_head fun operator _ => otherStops operator
    exact ⟨rfl, rfl⟩

/-- Further terms do not begin with a multiplication. -/
theorem head?_furtherTokens_append
    {further : List Further}
    (each : AllParts (· ≠ .mul) (Fits .product) further)
    {behind : List TokenKind}
    (stops : behind.head? ≠ some .star) :
    (furtherTokens further ++ behind).head? ≠ some .star := by
  cases further with
  | nil => exact stops
  | cons link rest =>
      have additive := (each link List.mem_cons_self).1
      intro starts
      exact additive (Operator.token_inj (Option.some.inj starts))

/-- Expressions that begin the same tokens are compared as their phrase says. -/
theorem Fits.compared
    {phrase : Phrase}
    {written : Written}
    (fits : written.Fits phrase) :
    ∀ other behind behindOther,
      Fits phrase other →
      written.tokens ++ behind = other.tokens ++ behindOther →
        Compared phrase written behind other behindOther := by
  induction fits with
  | number value =>
      intro other behind behindOther otherFits same
      cases otherFits with
      | number otherValue =>
          simp only [tokens, List.singleton_append, List.cons.injEq, TokenKind.number.injEq]
            at same
          exact ⟨congrArg Written.number same.1, same.2⟩
      | trace | negated | parenthesised => cases same
  | trace channel =>
      intro other behind behindOther otherFits same
      cases otherFits with
      | trace otherChannel =>
          simp only [tokens, List.singleton_append, List.cons.injEq, TokenKind.trace.injEq]
            at same
          exact ⟨congrArg Written.trace same.1, same.2⟩
      | number | negated | parenthesised => cases same
  | negated _ inductionHypothesis =>
      intro other behind behindOther otherFits same
      cases otherFits with
      | negated otherFits =>
          obtain ⟨rfl, rfl⟩ := inductionHypothesis _ _ _ otherFits (List.cons.inj same).2
          exact ⟨rfl, rfl⟩
      | number | trace | parenthesised => cases same
  | parenthesised _ inductionHypothesis =>
      intro other behind behindOther otherFits same
      cases otherFits with
      | parenthesised otherFits =>
          -- A right parenthesis ends both sums.
          simp only [tokens, List.cons_append, List.append_assoc, List.nil_append,
            List.cons.injEq, true_and] at same
          have closes : ∀ (rest : List TokenKind) (operator : Operator),
              (TokenKind.rightParen :: rest).head? ≠ some operator.token := by
            intro rest operator
            cases operator <;> simp [Operator.token]
          obtain ⟨rfl, sameRest⟩ := eq_of_compared_sums
            (inductionHypothesis _ _ _ otherFits same) (closes _) (closes _)
          exact ⟨rfl, (List.cons.inj sameRest).2⟩
      | number | trace | negated => cases same
  | factor _ inductionHypothesis =>
      intro other behind behindOther otherFits same
      obtain ⟨first, further, firstFits, each, rfl⟩ := otherFits.exists_factors
      rw [tokens_joinAll, List.append_assoc] at same
      obtain ⟨rfl, rfl⟩ := inductionHypothesis _ _ _ firstFits same
      exact .inl ⟨further, each, rfl, rfl⟩
  | multiplied _ rightFits leftHypothesis rightHypothesis =>
      intro other behind behindOther otherFits same
      rw [tokens, List.append_assoc, List.cons_append] at same
      exact grows_joined rfl rightFits
        (fun last further lastFits _ same => rightHypothesis _ _ _ lastFits same)
        (leftHypothesis _ _ _ otherFits same)
  | term _ inductionHypothesis =>
      intro other behind behindOther otherFits same stops otherStops
      obtain ⟨first, further, firstFits, each, rfl⟩ := otherFits.exists_terms
      rw [tokens_joinAll, List.append_assoc] at same
      obtain ⟨rfl, rfl⟩ := eq_of_compared_products
        (inductionHypothesis _ _ _ firstFits same) stops
        (head?_furtherTokens_append each otherStops)
      exact .inl ⟨further, each, rfl, rfl⟩
  | @added operator left right additive _ rightFits leftHypothesis rightHypothesis =>
      intro other behind behindOther otherFits same stops otherStops
      rw [tokens, List.append_assoc, List.cons_append] at same
      have joinStops :
          (operator.token :: (right.tokens ++ behind)).head? ≠ some TokenKind.star :=
        fun starts => additive (Operator.token_inj (Option.some.inj starts))
      exact grows_joined additive rightFits
        (fun last further lastFits each same =>
          eq_of_compared_products (rightHypothesis _ _ _ lastFits same) stops
            (head?_furtherTokens_append each otherStops))
        (leftHypothesis _ _ _ otherFits same joinStops otherStops)

/-- Tokens can be read as one expression at most. -/
theorem Fits.unique
    {written other : Written}
    (fits : written.Fits .sum)
    (otherFits : other.Fits .sum)
    (same : written.tokens = other.tokens) :
    written = other := by
  have compared := fits.compared other [] [] otherFits (by rw [same])
  exact (eq_of_compared_sums compared (by simp) (by simp)).1

end Written

end Neurochip.Rule
