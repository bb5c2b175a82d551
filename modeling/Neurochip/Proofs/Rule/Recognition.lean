import Neurochip.Proofs.Error.Acceptance
import Neurochip.Proofs.Rule.Loops
import Neurochip.Rule.LearningRule

namespace Neurochip

/-!
# The parser accepts exactly the grammar

The parser keeps a stack of unfinished sums and products instead of a
derivation.  Wherever it stands, the tokens it has read are those of its open
levels, one after the other, with a derivation behind each sum and each product
that it holds.  One more token keeps this, so a finished rule has a derivation.
The main statement adds the converse: a rule of at most 1024 tokens is parsed to
a tree exactly when its tokens derive that tree, and they derive at most one.
-/

namespace Rule

theorem Derives.negateTimes
    {bound : Nat}
    {tokens : List TokenKind}
    {expr : Expr}
    (operand : Derives bound .operand tokens expr)
    (count : Nat) :
    Derives (bound + count) .operand
      (List.replicate count .minus ++ tokens) (expr.negateTimes count) := by
  induction count generalizing bound tokens expr with
  | zero => exact operand
  | succ count inductionHypothesis =>
      have negated := inductionHypothesis operand.negation
      rw [Nat.add_right_comm, Nat.add_assoc] at negated
      simpa [List.replicate_succ', Expr.negateTimes] using negated

/-- The sum that a level holds with its operator, read from some tokens. -/
inductive SumRead (room : Nat) : Option (Expr × Operator) → List TokenKind → Prop where
  | nothing :
      SumRead room none []
  | sum {tokens : List TokenKind} {expr : Expr} {operator : Operator} :
      Derives room .sum tokens expr →
      operator ≠ .mul →
      SumRead room (some (expr, operator)) (tokens ++ [operator.token])

/-- The product that a level holds, read from some tokens. -/
inductive ProductRead (room : Nat) : Option Expr → List TokenKind → Prop where
  | nothing :
      ProductRead room none []
  | product {tokens : List TokenKind} {expr : Expr} :
      Derives room .product tokens expr →
      ProductRead room (some expr) (tokens ++ [.star])

/-- What a level holds and awaits, read from some tokens within the given room for nesting. -/
inductive LevelRead (room : Nat) (level : Level) : List TokenKind → Prop where
  | level {sum product : List TokenKind} :
      SumRead room level.sum sum →
      ProductRead room level.product product →
      LevelRead room level (sum ++ product ++ List.replicate level.negations .minus)

/-- The levels around the innermost one, read from some tokens, with the room that they leave. -/
inductive OuterRead : Nat → List Level → List TokenKind → Prop where
  | nothing :
      OuterRead Progress.maxNesting [] []
  | parenthesis
      {around room : Nat}
      {level : Level}
      {outer : List Level}
      {before inner : List TokenKind} :
      OuterRead around outer before →
      LevelRead around level inner →
      room + 1 + level.negations = around →
      OuterRead room (level :: outer) (before ++ inner ++ [.leftParen])

namespace Progress

/-- The parser where it stands, read from some tokens. -/
inductive HasRead : Progress → List TokenKind → Prop where
  | awaiting
      {room left : Nat}
      {level : Level}
      {outer : List Level}
      {before inner : List TokenKind} :
      OuterRead room outer before →
      LevelRead room level inner →
      left + level.negations = room →
      HasRead (awaiting level outer) (before ++ inner)
  | holding
      {room : Nat}
      {level : Level}
      {outer : List Level}
      {before sum tokens : List TokenKind}
      {product : Expr} :
      OuterRead room outer before →
      SumRead room level.sum sum →
      Derives room .product tokens product →
      HasRead (holding level outer product) (before ++ (sum ++ tokens))

end Progress

/-- Open levels use up the room that they do not leave. -/
theorem OuterRead.room_add
    {room : Nat}
    {outer : List Level}
    {tokens : List TokenKind}
    (read : OuterRead room outer tokens) :
    room + (outer.length + tally Level.negations outer) = Progress.maxNesting := by
  induction read with
  | nothing => rfl
  | parenthesis _ _ inductionHypothesis =>
      simp only [List.length_cons, tally_cons]
      omega

theorem levelRead_empty (room : Nat) : LevelRead room {} [] :=
  @LevelRead.level room {} [] [] .nothing .nothing

/-- A product completes the sum of its level. -/
theorem SumRead.total
    {room : Nat}
    {level : Level}
    {sum tokens : List TokenKind}
    {product : Expr}
    (read : SumRead room level.sum sum)
    (derivation : Derives room .product tokens product) :
    Derives room .sum (sum ++ tokens) (level.total product) := by
  unfold Level.total
  generalize level.sum = held at read
  cases read with
  | nothing => exact .term derivation
  | sum before additive =>
      simpa using before.extend additive derivation

/-- An operand completes the product of its level. -/
theorem LevelRead.complete
    {room left : Nat}
    {level : Level}
    (fits : left + level.negations = room)
    {inner tokens : List TokenKind}
    {operand : Expr}
    (read : LevelRead room level inner)
    (derivation : Derives left .operand tokens operand) :
    ∃ sum product,
      inner ++ tokens = sum ++ product ∧
        SumRead room level.sum sum ∧
        Derives room .product product (level.complete operand) := by
  have factor := derivation.negateTimes level.negations
  rw [fits] at factor
  obtain ⟨sumRead, productRead⟩ := read
  rename_i sum product
  refine ⟨sum, product ++ (List.replicate level.negations .minus ++ tokens),
    by simp, sumRead, ?_⟩
  unfold Level.complete
  generalize level.product = held at productRead
  cases productRead with
  | nothing => exact .factor factor
  | product before => simpa using before.times factor

namespace Progress

theorem hasRead_start : start.HasRead [] :=
  .awaiting .nothing (levelRead_empty maxNesting) rfl

/-- An operand that is supplied has been read. -/
theorem hasRead_supply
    {room left : Nat}
    {level : Level}
    (fits : left + level.negations = room)
    {outer : List Level}
    {before inner tokens : List TokenKind}
    {operand : Expr}
    (outerRead : OuterRead room outer before)
    (levelRead : LevelRead room level inner)
    (derivation : Derives left .operand tokens operand) :
    (supply level outer operand).HasRead (before ++ inner ++ tokens) := by
  obtain ⟨sum, product, split, sumRead, productDerives⟩ :=
    levelRead.complete fits derivation
  rw [List.append_assoc, split]
  exact .holding outerRead sumRead productDerives

/-- Where nesting is allowed, the awaited operand has room for it. -/
theorem exists_room
    {room left : Nat}
    {level : Level}
    (fits : left + level.negations = room)
    {outer : List Level}
    {before : List TokenKind}
    (outerRead : OuterRead room outer before)
    (allowed : nesting level outer < maxNesting) :
    ∃ less, less + 1 + level.negations = room := by
  have used := outerRead.room_add
  simp only [nesting, tally_cons] at allowed
  exact ⟨left - 1, by omega⟩

/-- What has been read stays read with one more token. -/
theorem HasRead.advance
    {progress next : Progress}
    {tokens : List TokenKind}
    (read : progress.HasRead tokens)
    {kind : TokenKind}
    (advanced : progress.advance? kind = some next) :
    next.HasRead (tokens ++ [kind]) := by
  cases read with
  | @awaiting room left level outer before inner outerRead levelRead fits =>
      cases kind with
      | number value =>
          obtain rfl := Option.some.inj advanced
          exact hasRead_supply fits outerRead levelRead (.number left value)
      | trace channel =>
          obtain rfl := Option.some.inj advanced
          exact hasRead_supply fits outerRead levelRead (.trace left channel)
      | minus =>
          obtain ⟨allowed, same⟩ := Option.ite_none_right_eq_some.mp advanced
          obtain rfl := Option.some.inj same
          obtain ⟨less, fits⟩ := exists_room fits outerRead allowed
          obtain ⟨sumRead, productRead⟩ := levelRead
          have negated : LevelRead room
              { level with negations := level.negations + 1 } _ :=
            .level sumRead productRead
          have fitsNegated : less + (level.negations + 1) = room := by omega
          simpa [List.replicate_succ'] using
            HasRead.awaiting outerRead negated fitsNegated
      | leftParen =>
          obtain ⟨allowed, same⟩ := Option.ite_none_right_eq_some.mp advanced
          obtain rfl := Option.some.inj same
          obtain ⟨less, fits⟩ := exists_room fits outerRead allowed
          simpa using
            HasRead.awaiting (.parenthesis outerRead levelRead fits)
              (levelRead_empty less) rfl
      | plus | star | rightParen => cases advanced
  | @holding room level outer before sum tokens product outerRead sumRead derivation =>
      have total := sumRead.total derivation
      cases kind with
      | star =>
          obtain rfl := Option.some.inj advanced
          have multiplied : LevelRead room
              { sum := level.sum, product := some product } _ :=
            .level sumRead (.product derivation)
          simpa using HasRead.awaiting outerRead multiplied rfl
      | plus =>
          obtain rfl := Option.some.inj advanced
          have added : LevelRead room
              { sum := some (level.total product, .add) } _ :=
            .level (.sum total (by decide)) .nothing
          simpa [Operator.token] using HasRead.awaiting outerRead added rfl
      | minus =>
          obtain rfl := Option.some.inj advanced
          have subtracted : LevelRead room
              { sum := some (level.total product, .sub) } _ :=
            .level (.sum total (by decide)) .nothing
          simpa [Operator.token] using HasRead.awaiting outerRead subtracted rfl
      | rightParen =>
          cases outerRead with
          | nothing => cases advanced
          | parenthesis outerRead levelRead fits =>
              obtain rfl := Option.some.inj advanced
              simpa using
                hasRead_supply fits outerRead levelRead (.parentheses total)
      | number | trace | leftParen => cases advanced

/-- What has been read stays read with more tokens. -/
theorem HasRead.advanceAll
    {progress reached : Progress}
    {before : List TokenKind}
    (read : progress.HasRead before)
    {tokens : List TokenKind}
    (advanced : progress.advanceAll? tokens = some reached) :
    reached.HasRead (before ++ tokens) := by
  induction tokens generalizing progress before with
  | nil =>
      obtain rfl := Option.some.inj advanced
      simpa using read
  | cons kind rest inductionHypothesis =>
      unfold advanceAll? at advanced
      split at advanced
      · rename_i next here
        simpa using inductionHypothesis (read.advance here) advanced
      · cases advanced

/-- A finished rule has a derivation. -/
theorem HasRead.derives_of_finish
    {progress : Progress}
    {tokens : List TokenKind}
    (read : progress.HasRead tokens)
    {expr : Expr}
    (finished : progress.finish? = some expr) :
    Derives maxNesting .sum tokens expr := by
  cases read with
  | awaiting => cases finished
  | holding outerRead sumRead derivation =>
      cases outerRead with
      | parenthesis => cases finished
      | nothing =>
          obtain rfl := Option.some.inj finished
          exact sumRead.total derivation

end Progress

/-- Tokens that are parsed to a tree derive it. -/
theorem Expr.derives_of_ofTokens
    {tokens : List Token}
    {length : Nat}
    {expr : Expr}
    (accepted : Expr.ofTokens tokens length = .ok expr) :
    Derives Progress.maxNesting .sum (tokens.map Token.kind) expr := by
  unfold Expr.ofTokens at accepted
  split at accepted
  · cases accepted
  · obtain ⟨progress, read, answered⟩ := bind_eq_ok_iff.mp accepted
    have reached := Progress.hasRead_start.advanceAll (Progress.read_eq_ok_iff.mp read)
    split at answered
    · rename_i finished
      obtain rfl := pure_eq_ok_iff.mp answered
      exact reached.derives_of_finish finished
    · cases answered

theorem Expr.ofTokens_of_long
    {tokens : List Token}
    {token : Token}
    (found : tokens[maxTokens]? = some token)
    (length : Nat) :
    Expr.ofTokens tokens length = .error token.unexpected := by
  simp only [Expr.ofTokens, found]

/-- Tokens derive at most one tree. -/
theorem Derives.unique
    {tokens : List TokenKind}
    {first second : Expr}
    (derivesFirst : Derives Progress.maxNesting .sum tokens first)
    (derivesSecond : Derives Progress.maxNesting .sum tokens second) :
    first = second := by
  have room : Progress.nesting {} [] + Progress.maxNesting ≤ Progress.maxNesting := by
    simp [Progress.nesting]
  obtain ⟨firstSum, firstProduct, firstReached, rfl⟩ :=
    Progress.completes_of_derives derivesFirst {} [] room rfl
  obtain ⟨secondSum, secondProduct, secondReached, rfl⟩ :=
    Progress.completes_of_derives derivesSecond {} [] room rfl
  rw [firstReached] at secondReached
  cases secondReached
  rfl

end Rule

namespace LearningRule

open Rule

/-- A rule of at most 1024 tokens is parsed to a tree exactly when its tokens derive the tree within
64 nested parentheses and negations; a longer one is refused at its first token too many.  Tokens
derive at most one tree, whose sums and products are loops that lean to the left. -/
theorem parse_iff_derives :
    (∀ source tokens, Token.ofSource source = .ok tokens →
      (tokens.length ≤ 1024 →
        ∀ expr,
          (∃ rule, parse source = .ok rule ∧ rule.expr = expr) ↔
            Derives 64 .sum (tokens.map Token.kind) expr) ∧
      (1024 < tokens.length →
        ∃ token, tokens[1024]? = some token ∧
          parse source = .error token.unexpected)) ∧
    (∀ tokens first second,
      Derives 64 .sum tokens first → Derives 64 .sum tokens second → first = second) ∧
    (∀ bound tokens expr,
      Derives bound .sum tokens expr ↔
        Loop (· ≠ .mul) (Derives bound .product) tokens expr) ∧
    (∀ bound tokens expr,
      Derives bound .product tokens expr ↔
        Loop (· = .mul) (Derives bound .operand) tokens expr) := by
  refine ⟨fun source tokens scanned => ⟨fun short expr => ⟨?_, ?_⟩, fun long => ?_⟩,
    fun _ _ _ => Derives.unique, fun _ _ _ => derives_sum_iff,
    fun _ _ _ => derives_product_iff⟩
  · rintro ⟨rule, accepted, rfl⟩
    obtain ⟨_, scannedHere, accepted⟩ := bind_eq_ok_iff.mp accepted
    obtain rfl := Except.ok.inj (scanned.symm.trans scannedHere)
    obtain ⟨expr, parsed, same⟩ := bind_eq_ok_iff.mp accepted
    obtain rfl := pure_eq_ok_iff.mp same
    exact Expr.derives_of_ofTokens parsed
  · intro derivation
    have parsed := Expr.ofTokens_of_derives derivation short source.utf8ByteSize
    exact ⟨_, bind_eq_ok_iff.mpr ⟨tokens, scanned,
      bind_eq_ok_iff.mpr ⟨expr, parsed, rfl⟩⟩, rfl⟩
  · have found : tokens[Expr.maxTokens]? = some tokens[1024] := List.getElem?_eq_getElem long
    refine ⟨tokens[1024], found, ?_⟩
    have refused := Expr.ofTokens_of_long found source.utf8ByteSize
    rw [parse, scanned]
    show (Expr.ofTokens tokens source.utf8ByteSize >>= _) = _
    rw [refused]
    rfl

/-- Parentheses are scanned one by one. -/
theorem exists_scan_parentheses (count position : Nat) :
    ∃ tokens, Token.scan position (List.replicate count '(') = .ok tokens ∧
      tokens.length = count := by
  induction count generalizing position with
  | zero => exact ⟨[], by simp [Token.scan], rfl⟩
  | succ count inductionHypothesis =>
      obtain ⟨tokens, scanned, counted⟩ := inductionHypothesis (position + '('.utf8Size)
      refine ⟨⟨.leftParen, String.singleton '(', position⟩ :: tokens, ?_, by simp [counted]⟩
      have notBlank : isBlank '(' = false := by decide
      have notWord : Token.isWordChar '(' = false := by decide
      have symbol : Token.ofSymbol? '(' = some .leftParen := rfl
      rw [List.replicate_succ, Token.scan]
      simp only [notBlank, notWord, symbol, scanned]
      rfl

/-- A negated sum times a number derives its tree, and 1025 parentheses are refused. -/
theorem parse_iff_derives_negated_sum :
    (∃ tokens, Token.ofSource "-(x1 - 2) * -(-3)" = .ok tokens ∧
      tokens.length ≤ 1024 ∧
      Derives 64 .sum (tokens.map Token.kind)
        (.binary .mul
          (.binary .sub (.literal 0) (.binary .sub (.trace .x1) (.literal 2)))
          (.literal 3))) ∧
    (∃ tokens, Token.ofSource (String.ofList (List.replicate 1025 '(')) = .ok tokens ∧
      1024 < tokens.length ∧
      ∃ token, tokens[1024]? = some token ∧
        parse (String.ofList (List.replicate 1025 '(')) = .error token.unexpected) := by
  constructor
  · have scanned : Token.ofSource "-(x1 - 2) * -(-3)" =
        .ok [⟨.minus, "-", 0⟩, ⟨.leftParen, "(", 1⟩, ⟨.trace .x1, "x1", 2⟩, ⟨.minus, "-", 5⟩,
          ⟨.number 2, "2", 7⟩, ⟨.rightParen, ")", 8⟩, ⟨.star, "*", 10⟩, ⟨.minus, "-", 12⟩,
          ⟨.leftParen, "(", 13⟩, ⟨.minus, "-", 14⟩, ⟨.number 3, "3", 15⟩,
          ⟨.rightParen, ")", 16⟩] := by
      decide +kernel
    exact ⟨_, scanned, by decide,
      ((parse_iff_derives.1 _ _ scanned).1 (by decide) _).mp
        ⟨⟨"-(x1 - 2) * -(-3)", _⟩, by decide +kernel, rfl⟩⟩
  · obtain ⟨tokens, scanned, counted⟩ := exists_scan_parentheses 1025 0
    have scanned : Token.ofSource (String.ofList (List.replicate 1025 '(')) = .ok tokens := by
      rw [Token.ofSource, String.toList_ofList, scanned]
    exact ⟨tokens, scanned, by omega,
      (parse_iff_derives.1 _ tokens scanned).2 (by omega)⟩

end LearningRule

end Neurochip
