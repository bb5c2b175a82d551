import Neurochip.Proofs.Rule.Descent

namespace Neurochip.Rule.Descent

/-!
# The number of calls

Every call is charged to a token, the one that it begins with or the operator
before that one.  Each kind of call leaves over what those that make it need, and
so five calls for each token are enough.  The main statement says that parsing
by recursive descent takes no more than these and three.
-/

/-- A run that takes up to five calls for each token it reads, and one more, and saves some of them.
Of the tokens, `count` are there to read.  A run that fails may take up to five calls for each of
them and some extra ones. -/
structure Run.Costs
    {tokens : List Token}
    (run : Run tokens)
    (count saved extra : Nat) :
    Prop where
  answered : ∀ parsed, run.outcome = .ok parsed →
    run.calls + 5 * parsed.rest.length + saved ≤ 5 * count + 1
  refused : ∀ error, run.outcome = .error error → run.calls ≤ 5 * count + extra

variable {tokens others rest : List Token} {token : Token} {length depth : Nat} {left : Expr}

namespace Run

variable {count saved extra otherSaved otherExtra : Nat}

theorem costs_refuse (error : Error) : (refuse error : Run tokens).Costs count saved 0 where
  answered := nofun
  refused := fun _ _ => Nat.zero_le _

theorem costs_answer
    (expr : Expr)
    (suffix : rest <:+ tokens)
    (saves : 5 * rest.length + saved ≤ 5 * count + 1) :
    (answer expr rest suffix).Costs count saved 0 where
  answered := by
    rintro parsed answered
    obtain rfl := Except.ok.inj answered
    simpa [answer] using saves
  refused := nofun

theorem Costs.after
    {run : Run tokens}
    (costs : run.Costs count saved extra)
    (events : List Event) :
    (run.after events).Costs count saved extra :=
  ⟨costs.answered, costs.refused⟩

theorem Costs.within
    {run : Run others}
    (costs : run.Costs count saved extra)
    (suffix : others <:+ tokens) :
    (run.within suffix).Costs count saved extra where
  answered := by
    intro parsed answered
    obtain ⟨inner, outcome, _, sameRest⟩ := exists_of_within answered
    exact sameRest ▸ costs.answered inner outcome
  refused := by
    intro error refused
    cases outcome : run.outcome with
    | error other => exact costs.refused other outcome
    | ok parsed => simp [Run.within, outcome, Except.map] at refused

theorem Costs.call
    {run : Run tokens}
    (costs : run.Costs count (saved + 1) extra) :
    run.call.Costs count saved (extra + 1) where
  answered := by
    intro parsed answered
    have before := costs.answered parsed answered
    simp only [Run.call]
    omega
  refused := by
    intro error refused
    have before := costs.refused error refused
    simp only [Run.call]
    omega

/-- A token before the others saves five calls. -/
theorem Costs.consume
    {run : Run tokens}
    (costs : run.Costs count saved extra)
    (saves : otherSaved ≤ saved + 5)
    (affords : extra ≤ otherExtra + 5) :
    run.Costs (count + 1) otherSaved otherExtra where
  answered := by
    intro parsed answered
    have before := costs.answered parsed answered
    omega
  refused := by
    intro error refused
    have before := costs.refused error refused
    omega

/-- What one run saves, the next one may spend. -/
theorem Costs.andThen
    {run : Run others}
    (costs : run.Costs count saved extra)
    {next : Parsed others → Run tokens}
    (onward : ∀ parsed, (next parsed).Costs parsed.rest.length otherSaved otherExtra)
    {nowSaved nowExtra : Nat}
    (saves : nowSaved + 1 ≤ saved + otherSaved)
    (affords : extra ≤ nowExtra)
    (affordsNext : otherExtra + 1 ≤ saved + nowExtra) :
    (run.andThen next).Costs count nowSaved nowExtra := by
  cases outcome : run.outcome with
  | error error =>
      have before := costs.refused error outcome
      rw [andThen_of_error outcome]
      refine ⟨nofun, fun _ _ => ?_⟩
      dsimp only
      omega
  | ok parsed =>
      have before := costs.answered parsed outcome
      rw [andThen_of_ok outcome]
      constructor
      · intro last answered
        have after := (onward parsed).answered last answered
        dsimp only
        omega
      · intro error refused
        have after := (onward parsed).refused error refused
        dsimp only
        omega

end Run

theorem costs_close (inner : Parsed tokens) :
    (close length inner).Costs inner.rest.length 1 0 := by
  obtain ⟨expr, rest, suffix⟩ := inner
  cases rest with
  | nil => exact Run.costs_refuse _
  | cons closing others =>
      by_cases right : closing.kind = .rightParen
      · simp only [close, if_pos right]
        exact Run.costs_answer expr _ (by simp only [List.length_cons]; omega)
      · simp only [close, if_neg right]
        exact Run.costs_refuse _

theorem costs_negated (operand : Parsed tokens) :
    (negated operand).Costs operand.rest.length 1 0 :=
  (Run.costs_answer _ operand.suffix (Nat.le_refl _)).after _

theorem costs_leaf (expr : Expr) : (Run.leaf token expr rest).Costs (rest.length + 1) 6 0 :=
  (Run.costs_answer expr (List.suffix_cons token rest) (by omega)).after _

/-- A first part pays for the call that begins with it. -/
theorem Run.Costs.beginWith
    {part : Run tokens}
    {saved extra : Nat}
    (costs : part.Costs tokens.length (saved + 2) (extra + 1))
    {loop : (first : Parsed tokens) → Run first.rest}
    (onward : ∀ first, (loop first).Costs first.rest.length 0 1) :
    (part.beginWith loop).call.Costs tokens.length saved (extra + 2) := by
  refine (costs.andThen (fun first => (onward first).within first.suffix) ?_ ?_ ?_).call <;> omega

/-- The token of an operator pays for the calls that end the parts around it. -/
theorem Run.Costs.extendBy
    {part : Run rest}
    {saved extra : Nat}
    (costs : part.Costs rest.length (saved + 3) extra)
    (affords : extra ≤ 2)
    {operator : Operator}
    {loop : (right : Parsed rest) → Run right.rest}
    (onward : ∀ right, (loop right).Costs right.rest.length 0 1) :
    (Run.extendBy token operator left part loop).call.Costs (rest.length + 1) 0 1 := by
  have joined : (Run.extendBy token operator left part loop).Costs rest.length (0 + 1) 2 := by
    refine costs.andThen (fun right => ((onward right).within _).after _) ?_ affords ?_ <;> omega
  exact joined.call.consume (by omega) (by omega)

/-- The token of a parenthesis or a negation pays for the call that is made behind it. -/
theorem Run.Costs.enter
    {inner : Run rest}
    (costs : inner.Costs rest.length 1 3) :
    (Run.enter token depth inner).call.Costs (rest.length + 1) 5 1 :=
  (((costs.within (List.suffix_cons token rest)).after [.enters depth]).call).consume
    (by omega) (by omega)

/-- Each kind of call saves enough for those that call it. -/
theorem costs_sum (length depth : Nat) (tokens : List Token) :
    (sum length depth tokens).Costs tokens.length 1 3 := by
  refine sum.induct
    (fun depth tokens => (sum length depth tokens).Costs tokens.length 1 3)
    (fun depth left tokens => (addends length depth left tokens).Costs tokens.length 0 1)
    (fun depth tokens => (product length depth tokens).Costs tokens.length 3 2)
    (fun depth left tokens => (factors length depth left tokens).Costs tokens.length 0 1)
    (fun depth tokens => (operand length depth tokens).Costs tokens.length 5 1)
    ?sum ?addendsEnd ?addendsOther ?addend ?product ?factorsEnd ?factor ?factorsOther
    ?operandEnd ?number ?trace ?deepestMinus ?minus ?deepestLeftParen ?leftParen ?other
    depth tokens
  case sum =>
    intro depth tokens first further
    rw [sum]
    exact first.beginWith further
  case addendsEnd =>
    intro depth left
    rw [addends_nil]
    exact (Run.costs_answer left _ (Nat.le_refl _)).call
  case addendsOther =>
    intro depth left token rest other
    rw [addends_of_other other]
    exact (Run.costs_answer left _ (Nat.le_refl _)).call
  case addend =>
    intro depth left token rest operator continues next further
    rw [addends_of_operator continues]
    exact next.extendBy (by decide) further
  case product =>
    intro depth tokens first further
    rw [product]
    exact first.beginWith further
  case factorsEnd =>
    intro depth left
    rw [factors_nil]
    exact (Run.costs_answer left _ (Nat.le_refl _)).call
  case factor =>
    intro depth left token rest star next further
    rw [factors_of_star star]
    exact next.extendBy (by decide) further
  case factorsOther =>
    intro depth left token rest other
    rw [factors_of_other other]
    exact (Run.costs_answer left _ (Nat.le_refl _)).call
  case operandEnd =>
    intro depth
    rw [operand_nil]
    exact (Run.costs_refuse _).call
  case number =>
    intro depth token rest value number
    rw [operand_of_number number]
    exact (costs_leaf _).call
  case trace =>
    intro depth token rest channel trace
    rw [operand_of_trace trace]
    exact (costs_leaf _).call
  case deepestMinus =>
    intro token rest minus
    rw [operand_of_deepest (.inl minus)]
    exact (Run.costs_refuse _).call
  case minus =>
    intro depth token rest minus shallow inner
    rw [operand_of_minus minus shallow]
    exact (inner.andThen costs_negated (by decide) (by decide) (by decide)).enter
  case deepestLeftParen =>
    intro token rest leftParen
    rw [operand_of_deepest (.inr leftParen)]
    exact (Run.costs_refuse _).call
  case leftParen =>
    intro depth token rest leftParen shallow inner
    rw [operand_of_leftParen leftParen shallow]
    exact (inner.andThen costs_close (by decide) (by decide) (by decide)).enter
  case other =>
    intro depth token rest notNumber notTrace notMinus notLeftParen
    rw [operand_of_other notNumber notTrace notMinus notLeftParen]
    exact (Run.costs_refuse _).call

/-- Parsing takes at most five calls for each token, and three more. -/
theorem calls_parse_le (tokens : List Token) (length : Nat) :
    (parse tokens length).calls ≤ 5 * tokens.length + 3 := by
  have costs := costs_sum length 0 tokens
  unfold parse
  cases tokens[Expr.maxTokens]? with
  | some token => exact Nat.zero_le _
  | none =>
      cases outcome : (sum length 0 tokens).outcome with
      | error error => exact costs.refused error outcome
      | ok parsed =>
          have answered := costs.answered parsed outcome
          dsimp only
          omega

end Neurochip.Rule.Descent
