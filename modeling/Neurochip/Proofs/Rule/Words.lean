import Neurochip.Proofs.Rule.Scanned
import Neurochip.Proofs.SynapseGroup.Registers

namespace Neurochip

/-!
# Learning rules compute in words

Numbers in a rule are words of 64 bits, and so are their negations.  This holds
of every tree that the parser is building, and so of every parsed rule.  Hence
a rule asks for weight changes that are words of 64 bits.
-/

namespace Rule

/-- The words of 64 bits whose negations are such words. -/
def literalRange : Bounds :=
  { lower := -9223372036854775807, upper := 9223372036854775807 }

namespace Expr

/-- Every literal of an expression is in range. -/
def InWords : Expr → Prop
  | literal value => literalRange.Contains value
  | trace _ => True
  | binary _ left right => left.InWords ∧ right.InWords

theorem InWords.negate {expr : Expr} (inWords : expr.InWords) : expr.negate.InWords := by
  cases expr with
  | literal value =>
      obtain ⟨lower, upper⟩ := inWords
      simp only [literalRange] at lower upper
      show -9223372036854775807 ≤ -value ∧ -value ≤ 9223372036854775807
      omega
  | trace channel => exact ⟨⟨by decide, by decide⟩, inWords⟩
  | binary operator left right => exact ⟨⟨by decide, by decide⟩, inWords⟩

theorem InWords.negateTimes
    {expr : Expr}
    (inWords : expr.InWords)
    (count : Nat) :
    (negateTimes count expr).InWords := by
  induction count generalizing expr with
  | zero => exact inWords
  | succ count inductionHypothesis => exact inductionHypothesis inWords.negate

/-- The value of an expression at traces in range is a word of 64 bits. -/
theorem InWords.contains_evaluate
    {expr : Expr}
    (inWords : expr.InWords)
    {traces : Traces}
    (inRange : traces.InRange) :
    Bounds.int64.Contains (expr.evaluate traces) := by
  cases expr with
  | literal value =>
      obtain ⟨lower, upper⟩ := inWords
      simp only [literalRange] at lower upper
      show -9223372036854775808 ≤ value ∧ value ≤ 9223372036854775807
      omega
  | trace channel =>
      obtain ⟨lower, upper⟩ := inRange channel
      simp only [Traces.range] at lower upper
      show -9223372036854775808 ≤ traces.get channel ∧ traces.get channel ≤ 9223372036854775807
      omega
  | binary operator left right => exact Bounds.contains_clamp _ _

end Expr

/-- Every expression that stands to the left of an operand has its literals in range. -/
structure Level.InWords (level : Level) : Prop where
  sum : ∀ expr operator, level.sum = some (expr, operator) → expr.InWords
  product : ∀ expr, level.product = some expr → expr.InWords

theorem Level.inWords_empty : Level.InWords {} :=
  ⟨by simp, by simp⟩

theorem Level.inWords_ofSum
    {expr : Expr}
    (inWords : expr.InWords)
    {operator : Operator} :
    Level.InWords { sum := some (expr, operator) } := by
  refine ⟨?_, by simp⟩
  rintro other _ found
  obtain rfl := congrArg Prod.fst (Option.some.inj found)
  exact inWords

/-- The product that ends with an operand has its literals in range. -/
theorem Level.InWords.complete
    {level : Level}
    (inWords : level.InWords)
    {operand : Expr}
    (operandInWords : operand.InWords) :
    (level.complete operand).InWords := by
  have factor := operandInWords.negateTimes level.negations
  unfold Level.complete
  dsimp only
  split
  · exact factor
  · rename_i product found
    exact ⟨inWords.product product found, factor⟩

/-- The sum that ends with a product has its literals in range. -/
theorem Level.InWords.total
    {level : Level}
    (inWords : level.InWords)
    {product : Expr}
    (productInWords : product.InWords) :
    (level.total product).InWords := by
  unfold Level.total
  split
  · exact productInWords
  · rename_i sum operator found
    exact ⟨inWords.sum sum operator found, productInWords⟩

namespace Progress

/-- Every expression that the parser holds has its literals in range. -/
def InWords : Progress → Prop
  | awaiting level outer => level.InWords ∧ ∀ other ∈ outer, other.InWords
  | holding level outer product =>
      level.InWords ∧ (∀ other ∈ outer, other.InWords) ∧ product.InWords

/-- A number of a token is a word. -/
def TokenInWords : TokenKind → Prop
  | .number value => value < Token.numberLimit
  | _ => True

theorem inWords_start : start.InWords :=
  ⟨Level.inWords_empty, by simp⟩

theorem inWords_supply
    {level : Level}
    (inWords : level.InWords)
    {outer : List Level}
    (outerInWords : ∀ other ∈ outer, other.InWords)
    {operand : Expr}
    (operandInWords : operand.InWords) :
    (supply level outer operand).InWords :=
  ⟨⟨inWords.sum, by simp⟩, outerInWords, inWords.complete operandInWords⟩

/-- One more token leaves everything in range. -/
theorem InWords.advance
    {progress next : Progress}
    (inWords : progress.InWords)
    {kind : TokenKind}
    (tokenInWords : TokenInWords kind)
    (advanced : progress.advance? kind = some next) :
    next.InWords := by
  unfold advance? at advanced
  -- First the tokens where an operand is expected, then those after one, each in the order of the
  -- definition; `h_5` and `h_10` are the tokens that cannot come next.
  split at advanced
  case h_1 level outer value =>
      obtain rfl := Option.some.inj advanced
      have small : value < 9223372036854775808 := tokenInWords
      have literal : (Expr.literal value).InWords := by
        show -9223372036854775807 ≤ (value : Int) ∧ (value : Int) ≤ 9223372036854775807
        omega
      exact inWords_supply inWords.1 inWords.2 literal
  case h_2 level outer channel =>
      obtain rfl := Option.some.inj advanced
      exact inWords_supply inWords.1 inWords.2 trivial
  case h_3 level outer =>
      split at advanced
      · obtain rfl := Option.some.inj advanced
        exact ⟨⟨inWords.1.sum, inWords.1.product⟩, inWords.2⟩
      · cases advanced
  case h_4 level outer =>
      split at advanced
      · obtain rfl := Option.some.inj advanced
        exact ⟨Level.inWords_empty, List.forall_mem_cons.mpr inWords⟩
      · cases advanced
  case h_5 => cases advanced
  case h_6 level outer product =>
      obtain rfl := Option.some.inj advanced
      obtain ⟨levelInWords, outerInWords, productInWords⟩ := inWords
      refine ⟨⟨levelInWords.sum, ?_⟩, outerInWords⟩
      rintro expr found
      obtain rfl := Option.some.inj found
      exact productInWords
  case h_7 level outer product =>
      obtain rfl := Option.some.inj advanced
      obtain ⟨levelInWords, outerInWords, productInWords⟩ := inWords
      exact ⟨Level.inWords_ofSum (levelInWords.total productInWords), outerInWords⟩
  case h_8 level outer product =>
      obtain rfl := Option.some.inj advanced
      obtain ⟨levelInWords, outerInWords, productInWords⟩ := inWords
      exact ⟨Level.inWords_ofSum (levelInWords.total productInWords), outerInWords⟩
  case h_9 level next outer product =>
      obtain rfl := Option.some.inj advanced
      obtain ⟨levelInWords, outerInWords, productInWords⟩ := inWords
      obtain ⟨nextInWords, outerInWords⟩ := List.forall_mem_cons.mp outerInWords
      exact inWords_supply nextInWords outerInWords (levelInWords.total productInWords)
  case h_10 => cases advanced

/-- All tokens leave everything in range. -/
theorem InWords.read
    {progress reached : Progress}
    (inWords : progress.InWords)
    {tokens : List Token}
    (tokensInWords : ∀ token ∈ tokens, TokenInWords token.kind)
    (accepted : progress.read tokens = .ok reached) :
    reached.InWords := by
  induction tokens generalizing progress with
  | nil =>
      obtain rfl := Except.ok.inj accepted
      exact inWords
  | cons token rest inductionHypothesis =>
      unfold Progress.read at accepted
      split at accepted
      · rename_i next advanced
        exact inductionHypothesis
          (inWords.advance (tokensInWords token List.mem_cons_self) advanced)
          (fun other member => tokensInWords other (List.mem_cons_of_mem _ member)) accepted
      · cases accepted

end Progress

/-- A number that is made of a word of a rule is a word of 64 bits. -/
theorem Token.inWords_ofWord
    {position : Nat}
    {first : Char}
    {word : List Char}
    {token : Token}
    (accepted : ofWord position first word = .ok token) :
    Progress.TokenInWords token.kind := by
  obtain ⟨_, _, ⟨_, value, found, kind⟩ | ⟨_, channel, _, kind⟩⟩ :=
    ofWord_eq_ok_iff.mp accepted
  · obtain ⟨⟨_, small⟩, same⟩ := Option.ite_none_right_eq_some.mp found
    obtain rfl := Option.some.inj same
    rw [kind]
    exact small
  · rw [kind]
    trivial

theorem Token.inWords_ofSymbol
    {character : Char}
    {kind : TokenKind}
    (known : ofSymbol? character = some kind) :
    Progress.TokenInWords kind := by
  unfold ofSymbol? at known
  split at known <;> cases known <;> trivial

/-- The numbers among the tokens of a source are words. -/
theorem Token.Scanned.inWords
    {position : Nat}
    {source : List Char}
    {tokens : List Token}
    (scanned : Scanned position source tokens) :
    ∀ token ∈ tokens, Progress.TokenInWords token.kind := by
  induction scanned with
  | nothing => simp
  | blank _ _ inductionHypothesis => exact inductionHypothesis
  | word _ _ isToken _ inductionHypothesis =>
      exact List.forall_mem_cons.mpr ⟨inWords_ofWord isToken, inductionHypothesis⟩
  | symbol _ _ known _ inductionHypothesis =>
      exact List.forall_mem_cons.mpr ⟨inWords_ofSymbol known, inductionHypothesis⟩

end Rule

/-- The literals of a parsed rule are in range. -/
theorem LearningRule.inWords_of_parse
    {source : String}
    {rule : LearningRule}
    (accepted : parse source = .ok rule) :
    rule.expr.InWords := by
  unfold parse at accepted
  obtain ⟨tokens, scanned, accepted⟩ := bind_eq_ok_iff.mp accepted
  obtain ⟨expr, parsed, accepted⟩ := bind_eq_ok_iff.mp accepted
  obtain rfl := pure_eq_ok_iff.mp accepted
  unfold Rule.Expr.ofTokens at parsed
  split at parsed
  · cases parsed
  · obtain ⟨reached, read, finished⟩ := bind_eq_ok_iff.mp parsed
    have tokensInWords := (Rule.Token.scanned_of_scan scanned).inWords
    have inWords := Rule.Progress.inWords_start.read tokensInWords read
    split at finished
    · rename_i finishedExpr found
      obtain rfl := pure_eq_ok_iff.mp finished
      unfold Rule.Progress.finish? at found
      split at found
      · obtain rfl := Option.some.inj found
        exact inWords.1.total inWords.2.2
      · cases found
    · cases finished

end Neurochip
