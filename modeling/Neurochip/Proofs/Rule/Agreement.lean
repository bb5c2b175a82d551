import Neurochip.Proofs.Rule.Descent
import Neurochip.Proofs.Rule.Recognition

namespace Neurochip.Rule

/-!
# Both ways of parsing agree

Where a call begins, the parser with levels awaits what the call is for, and
where the call ends it holds what has been answered.  This is kept by the calls
that a call makes.  The main statement says that parsing by recursive descent
has the outcome of parsing with levels, for all tokens.
-/

namespace Progress

/-- The outcome of parsing from a place on. -/
def conclude (length : Nat) (progress : Progress) (tokens : List Token) : Except Error Expr :=
  progress.read tokens >>= fun reached =>
    match reached.finish? with
    | some expr => .ok expr
    | none => .error (Descent.unexpectedEnd length)

variable {length : Nat}

theorem conclude_cons (progress : Progress) (token : Token) (rest : List Token) :
    progress.conclude length (token :: rest) =
      match progress.advance? token.kind with
      | some next => next.conclude length rest
      | none => .error token.unexpected := by
  unfold conclude
  rw [read]
  cases progress.advance? token.kind <;> rfl

theorem conclude_of_advance
    {progress next : Progress}
    {token : Token}
    (advanced : progress.advance? token.kind = some next)
    (rest : List Token) :
    progress.conclude length (token :: rest) = next.conclude length rest := by
  rw [conclude_cons, advanced]

theorem conclude_of_stuck
    {progress : Progress}
    {token : Token}
    (stuck : progress.advance? token.kind = none)
    (rest : List Token) :
    progress.conclude length (token :: rest) = .error token.unexpected := by
  rw [conclude_cons, stuck]

/-- The outcome behind the sum in the innermost parentheses, if nothing continues the sum. -/
def close (length : Nat) (outer : List Level) (expr : Expr) (rest : List Token) :
    Except Error Expr :=
  match outer, rest with
  | [], [] => .ok expr
  | [], token :: _ => .error token.unexpected
  | _ :: _, [] => .error (Descent.unexpectedEnd length)
  | next :: outer, closing :: others =>
      if closing.kind = .rightParen then
        (supply next outer expr).conclude length others
      else
        .error closing.unexpected

/-- Tokens that do not continue a product. -/
def EndsProduct (tokens : List Token) : Prop :=
  ∀ token ∈ tokens.head?, token.kind ≠ .star

/-- A sum that nothing continues is closed. -/
theorem conclude_holding
    {tokens : List Token}
    (endsProduct : EndsProduct tokens)
    (endsSum : ∀ token ∈ tokens.head?, Descent.additive? token.kind = none)
    (level : Level)
    (outer : List Level)
    (product : Expr) :
    (holding level outer product).conclude length tokens =
      close length outer (level.total product) tokens := by
  cases tokens with
  | nil => cases outer <;> rfl
  | cons token rest =>
      have notStar : token.kind ≠ .star := endsProduct token rfl
      have notAdditive : Descent.additive? token.kind = none := endsSum token rfl
      rw [conclude_cons]
      cases kind : token.kind with
      | star => exact absurd kind notStar
      | plus | minus => simp [kind, Descent.additive?] at notAdditive
      | rightParen => cases outer <;> simp [advance?, close, kind]
      | number | trace | leftParen => cases outer <;> simp [advance?, close, kind]

end Progress

namespace Descent

open Progress

variable {tokens others rest : List Token}

namespace Run

/-- A run takes the outcome from the start of a phrase to what follows its end. -/
def Leads
    (run : Run tokens)
    (start : Except Error Expr)
    (next : Expr → List Token → Except Error Expr) :
    Prop :=
  start = run.outcome.bind fun parsed => next parsed.expr parsed.rest

/-- The tokens behind the phrase have a property, if there is an answer. -/
def Ends (run : Run tokens) (property : List Token → Prop) : Prop :=
  ∀ parsed, run.outcome = .ok parsed → property parsed.rest

variable {start : Except Error Expr} {middle next : Expr → List Token → Except Error Expr}
variable {property : List Token → Prop}

theorem leads_refuse (error : Error) :
    (refuse error : Run tokens).call.Leads (.error error) next :=
  rfl

theorem leads_answer (expr : Expr) (rest : List Token) (suffix : rest <:+ tokens) :
    (answer expr rest suffix).call.Leads (next expr rest) next :=
  rfl

theorem Leads.within
    {run : Run others}
    (leads : run.Leads start next)
    (suffix : others <:+ tokens) :
    (run.within suffix).Leads start next := by
  unfold Leads at leads ⊢
  rw [leads, Run.within]
  cases run.outcome <;> rfl

theorem Leads.andThen
    {run : Run others}
    (leads : run.Leads start middle)
    {further : Parsed others → Run tokens}
    (onward : ∀ parsed, run.outcome = .ok parsed →
      (further parsed).Leads (middle parsed.expr parsed.rest) next) :
    (run.andThen further).Leads start next := by
  unfold Leads at leads ⊢
  rw [leads]
  cases outcome : run.outcome with
  | error error =>
      rw [andThen_of_error outcome]
      rfl
  | ok parsed =>
      rw [andThen_of_ok outcome]
      exact onward parsed outcome

theorem Leads.beginWith
    {part : Run tokens}
    (leads : part.Leads start middle)
    {loop : (first : Parsed tokens) → Run first.rest}
    (onward : ∀ first, part.outcome = .ok first →
      (loop first).Leads (middle first.expr first.rest) next) :
    (part.beginWith loop).call.Leads start next :=
  leads.andThen fun first answered => (onward first answered).within first.suffix

theorem Leads.extendBy
    {part : Run rest}
    (leads : part.Leads start middle)
    {token : Token}
    {operator : Operator}
    {left : Expr}
    {loop : (right : Parsed rest) → Run right.rest}
    (onward : ∀ right, part.outcome = .ok right →
      (loop right).Leads (middle right.expr right.rest) next) :
    (Run.extendBy token operator left part loop).call.Leads start next :=
  leads.andThen fun right answered =>
    (onward right answered).within (right.suffix.trans (List.suffix_cons token rest))

theorem Leads.enter
    {inner : Run rest}
    (leads : inner.Leads start next)
    (token : Token)
    (depth : Nat) :
    (Run.enter token depth inner).call.Leads start next :=
  leads.within (List.suffix_cons token rest)

theorem ends_answer
    (holds : property rest)
    (expr : Expr)
    (suffix : rest <:+ tokens) :
    (answer expr rest suffix).call.Ends property := by
  rintro parsed answered
  obtain rfl := Except.ok.inj answered
  exact holds

/-- A run ends where the run that it goes on with ends. -/
theorem ends_andThen
    {run : Run others}
    {further : Parsed others → Run tokens}
    (ends : ∀ parsed, (further parsed).Ends property) :
    (run.andThen further).Ends property := by
  intro parsed answered
  cases outcome : run.outcome with
  | error error =>
      rw [andThen_of_error outcome] at answered
      cases answered
  | ok inner =>
      rw [andThen_of_ok outcome] at answered
      exact ends inner parsed answered

theorem Ends.within
    {run : Run others}
    (ends : run.Ends property)
    (suffix : others <:+ tokens) :
    (run.within suffix).Ends property := by
  intro parsed answered
  obtain ⟨inner, outcome, _, sameRest⟩ := exists_of_within answered
  exact sameRest ▸ ends inner outcome

end Run

variable {length depth : Nat} {left : Expr} {token : Token}

/-- A sum is parsed like the tokens from an open parenthesis on. -/
def SumAgrees (length depth : Nat) (tokens : List Token) : Prop :=
  depth ≤ maxNesting → ∀ outer, nesting {} outer = depth →
    (sum length depth tokens).Leads
      ((awaiting {} outer).conclude length tokens)
      (Progress.close length outer)

/-- A sum is continued as it is behind a product. -/
def AddendsAgree (length depth : Nat) (left : Expr) (tokens : List Token) : Prop :=
  depth ≤ maxNesting → EndsProduct tokens → ∀ outer, nesting {} outer = depth →
    ∀ before product, Level.total { sum := before } product = left →
      (addends length depth left tokens).Leads
        ((holding { sum := before } outer product).conclude length tokens)
        (Progress.close length outer)

/-- A product is parsed like the tokens from its first operand on, and nothing continues it. -/
structure ProductAgrees (length depth : Nat) (tokens : List Token) : Prop where
  leads : depth ≤ maxNesting → ∀ before outer, nesting {} outer = depth →
    (product length depth tokens).Leads
      ((awaiting { sum := before } outer).conclude length tokens)
      fun expr => (holding { sum := before } outer expr).conclude length
  ends : (product length depth tokens).Ends EndsProduct

/-- A product is continued as it is behind an operand. -/
structure FactorsAgree (length depth : Nat) (left : Expr) (tokens : List Token) : Prop where
  leads : depth ≤ maxNesting → ∀ before outer, nesting {} outer = depth →
    (factors length depth left tokens).Leads
      ((holding { sum := before } outer left).conclude length tokens)
      fun expr => (holding { sum := before } outer expr).conclude length
  ends : (factors length depth left tokens).Ends EndsProduct

/-- An operand is parsed like the next tokens where one is awaited. -/
def OperandAgrees (length depth : Nat) (tokens : List Token) : Prop :=
  depth ≤ maxNesting → ∀ level outer, nesting level outer = depth →
    (operand length depth tokens).Leads
      ((awaiting level outer).conclude length tokens)
      fun expr => (supply level outer expr).conclude length

theorem sumAgrees_of
    (first : ProductAgrees length depth tokens)
    (further : ∀ first : Parsed tokens, AddendsAgree length depth first.expr first.rest) :
    SumAgrees length depth tokens := by
  intro allowed outer nested
  rw [sum]
  exact (first.leads allowed none outer nested).beginWith fun parsed answered =>
    further parsed allowed (first.ends parsed answered) outer nested none parsed.expr rfl

theorem addendsAgree_nil (left : Expr) : AddendsAgree length depth left [] := by
  intro allowed endsProduct outer nested before product total
  rw [addends_nil, conclude_holding endsProduct (by simp), total]
  exact Run.leads_answer _ _ _

theorem addendsAgree_of_other
    (other : additive? token.kind = none)
    (left : Expr)
    (rest : List Token) :
    AddendsAgree length depth left (token :: rest) := by
  intro allowed endsProduct outer nested before product total
  rw [addends_of_other other, conclude_holding endsProduct (by simpa using other), total]
  exact Run.leads_answer _ _ _

theorem addendsAgree_of_operator
    {operator : Operator}
    (continues : additive? token.kind = some operator)
    (next : ProductAgrees length depth rest)
    (further : ∀ right : Parsed rest,
      AddendsAgree length depth (.binary operator left right.expr) right.rest) :
    AddendsAgree length depth left (token :: rest) := by
  intro allowed endsProduct outer nested before product total
  have advanced : (holding { sum := before } outer product).advance? token.kind =
      some (awaiting { sum := some (left, operator) } outer) := by
    cases kind : token.kind <;> rw [kind] at continues <;> cases continues <;>
      simp [advance?, total]
  rw [addends_of_operator continues, conclude_of_advance advanced]
  exact (next.leads allowed (some (left, operator)) outer nested).extendBy
    fun right answered =>
      further right allowed (next.ends right answered) outer nested _ right.expr rfl

theorem productAgrees_of
    (first : OperandAgrees length depth tokens)
    (further : ∀ first : Parsed tokens, FactorsAgree length depth first.expr first.rest) :
    ProductAgrees length depth tokens where
  leads := by
    intro allowed before outer nested
    rw [product]
    exact (first allowed { sum := before } outer nested).beginWith fun parsed _ =>
      (further parsed).leads allowed before outer nested
  ends := by
    rw [product]
    exact Run.ends_andThen fun parsed => (further parsed).ends.within parsed.suffix

theorem factorsAgree_nil (left : Expr) : FactorsAgree length depth left [] where
  leads := by
    intro allowed before outer nested
    rw [factors_nil]
    rfl
  ends := by
    rw [factors_nil]
    exact Run.ends_answer (by simp [EndsProduct]) _ _

theorem factorsAgree_of_other
    (other : token.kind ≠ .star)
    (left : Expr)
    (rest : List Token) :
    FactorsAgree length depth left (token :: rest) where
  leads := by
    intro allowed before outer nested
    rw [factors_of_other other]
    rfl
  ends := by
    rw [factors_of_other other]
    exact Run.ends_answer (by simpa [EndsProduct] using other) _ _

theorem factorsAgree_of_star
    (star : token.kind = .star)
    (next : OperandAgrees length depth rest)
    (further : ∀ right : Parsed rest,
      FactorsAgree length depth (.binary .mul left right.expr) right.rest) :
    FactorsAgree length depth left (token :: rest) where
  leads := by
    intro allowed before outer nested
    have advanced : (holding { sum := before } outer left).advance? token.kind =
        some (awaiting { sum := before, product := some left } outer) := by
      rw [star]
      rfl
    rw [factors_of_star star, conclude_of_advance advanced]
    exact (next allowed { sum := before, product := some left } outer nested).extendBy
      fun right _ => (further right).leads allowed before outer nested
  ends := by
    rw [factors_of_star star]
    exact Run.ends_andThen fun right =>
      (further right).ends.within (right.suffix.trans (List.suffix_cons token rest))

theorem operandAgrees_nil : OperandAgrees length depth [] := by
  intro allowed level outer nested
  rw [operand_nil]
  rfl

theorem operandAgrees_of_number
    {value : Nat}
    (number : token.kind = .number value)
    (rest : List Token) :
    OperandAgrees length depth (token :: rest) := by
  intro allowed level outer nested
  have advanced : (awaiting level outer).advance? token.kind =
      some (supply level outer (.literal value)) := by
    rw [number]
    rfl
  rw [operand_of_number number, conclude_of_advance advanced]
  rfl

theorem operandAgrees_of_trace
    {channel : Channel}
    (trace : token.kind = .trace channel)
    (rest : List Token) :
    OperandAgrees length depth (token :: rest) := by
  intro allowed level outer nested
  have advanced : (awaiting level outer).advance? token.kind =
      some (supply level outer (.trace channel)) := by
    rw [trace]
    rfl
  rw [operand_of_trace trace, conclude_of_advance advanced]
  rfl

theorem operandAgrees_of_deepest
    (nests : token.kind = .minus ∨ token.kind = .leftParen)
    (rest : List Token) :
    OperandAgrees length maxNesting (token :: rest) := by
  intro allowed level outer nested
  have full : ¬ nesting level outer < maxNesting := by omega
  have stuck : (awaiting level outer).advance? token.kind = none := by
    rcases nests with kind | kind <;> simp [kind, advance?, full]
  rw [operand_of_deepest nests, conclude_of_stuck stuck]
  exact Run.leads_refuse _

theorem operandAgrees_of_minus
    (minus : token.kind = .minus)
    (shallow : depth ≠ maxNesting)
    (inner : OperandAgrees length (depth + 1) rest) :
    OperandAgrees length depth (token :: rest) := by
  intro allowed level outer nested
  have room : nesting level outer < maxNesting := by omega
  have deeper : nesting { level with negations := level.negations + 1 } outer = depth + 1 := by
    rw [nesting_negation, nested]
  have advanced : (awaiting level outer).advance? token.kind =
      some (awaiting { level with negations := level.negations + 1 } outer) := by
    simp [minus, advance?, room]
  rw [operand_of_minus minus shallow, conclude_of_advance advanced]
  refine ((inner (by omega) _ outer deeper).andThen fun parsed _ => ?_).enter token (depth + 1)
  -- The negation that the level would have made behind the operand, the call makes.
  exact rfl

/-- Behind a sum in parentheses stands the right one, or nothing that is allowed there. -/
theorem leads_close
    (inner : Parsed tokens)
    (level : Level)
    (outer : List Level) :
    (close length inner).Leads
      (Progress.close length (level :: outer) inner.expr inner.rest)
      fun expr => (supply level outer expr).conclude length := by
  obtain ⟨expr, rest, suffix⟩ := inner
  cases rest with
  | nil => rfl
  | cons closing others =>
      by_cases right : closing.kind = .rightParen
      · simp only [close, Progress.close, if_pos right]
        rfl
      · simp only [close, Progress.close, if_neg right]
        rfl

theorem operandAgrees_of_leftParen
    (leftParen : token.kind = .leftParen)
    (shallow : depth ≠ maxNesting)
    (inner : SumAgrees length (depth + 1) rest) :
    OperandAgrees length depth (token :: rest) := by
  intro allowed level outer nested
  have room : nesting level outer < maxNesting := by omega
  have deeper : nesting {} (level :: outer) = depth + 1 := by
    rw [nesting_parenthesis, nested]
  have advanced : (awaiting level outer).advance? token.kind =
      some (awaiting {} (level :: outer)) := by
    simp [leftParen, advance?, room]
  rw [operand_of_leftParen leftParen shallow, conclude_of_advance advanced]
  exact ((inner (by omega) (level :: outer) deeper).andThen fun parsed _ =>
    leads_close parsed level outer).enter token (depth + 1)

theorem operandAgrees_of_other
    (notNumber : ∀ value, token.kind ≠ .number value)
    (notTrace : ∀ channel, token.kind ≠ .trace channel)
    (notMinus : token.kind ≠ .minus)
    (notLeftParen : token.kind ≠ .leftParen)
    (rest : List Token) :
    OperandAgrees length depth (token :: rest) := by
  intro allowed level outer nested
  have stuck : (awaiting level outer).advance? token.kind = none := by
    unfold advance?
    split <;> simp_all
  rw [operand_of_other notNumber notTrace notMinus notLeftParen, conclude_of_stuck stuck]
  exact Run.leads_refuse _

/-- Every call agrees with the parser that keeps levels. -/
theorem sumAgrees (length depth : Nat) (tokens : List Token) : SumAgrees length depth tokens := by
  refine sum.induct (SumAgrees length) (AddendsAgree length) (ProductAgrees length)
    (FactorsAgree length) (OperandAgrees length)
    ?sum ?addendsEnd ?addendsOther ?addend ?product ?factorsEnd ?factor ?factorsOther
    ?operandEnd ?number ?trace ?deepestMinus ?minus ?deepestLeftParen ?leftParen ?other depth tokens
  case sum => exact fun _ _ => sumAgrees_of
  case addendsEnd => exact fun _ left => addendsAgree_nil left
  case addendsOther => exact fun _ left _ rest other => addendsAgree_of_other other left rest
  case addend => exact fun _ _ _ _ _ => addendsAgree_of_operator
  case product => exact fun _ _ => productAgrees_of
  case factorsEnd => exact fun _ left => factorsAgree_nil left
  case factor => exact fun _ _ _ _ => factorsAgree_of_star
  case factorsOther => exact fun _ left _ rest other => factorsAgree_of_other other left rest
  case operandEnd => exact fun _ => operandAgrees_nil
  case number => exact fun _ _ rest _ number => operandAgrees_of_number number rest
  case trace => exact fun _ _ rest _ trace => operandAgrees_of_trace trace rest
  case deepestMinus => exact fun _ rest minus => operandAgrees_of_deepest (.inl minus) rest
  case minus => exact fun _ _ _ => operandAgrees_of_minus
  case deepestLeftParen => exact fun _ rest paren => operandAgrees_of_deepest (.inr paren) rest
  case leftParen => exact fun _ _ _ => operandAgrees_of_leftParen
  case other =>
    exact fun _ _ rest notNumber notTrace notMinus notLeftParen =>
      operandAgrees_of_other notNumber notTrace notMinus notLeftParen rest

theorem finish_eq_close (parsed : Parsed tokens) :
    finish parsed = Progress.close length [] parsed.expr parsed.rest := by
  unfold finish Progress.close
  cases parsed.rest <;> rfl

/-- Few enough tokens are parsed from the start. -/
theorem ofTokens_eq_conclude (short : tokens[Expr.maxTokens]? = none) :
    Expr.ofTokens tokens length = start.conclude length tokens := by
  unfold Expr.ofTokens conclude
  rw [short]
  cases start.read tokens with
  | error error => rfl
  | ok reached => cases finished : reached.finish? <;> simp [finished, bind, Except.bind] <;> rfl

/-- Parsing by recursive descent has the outcome of parsing with levels. -/
theorem outcome_parse (tokens : List Token) (length : Nat) :
    (parse tokens length).outcome = Expr.ofTokens tokens length := by
  cases short : tokens[Expr.maxTokens]? with
  | some token => rw [parse, short, Expr.ofTokens_of_long short]
  | none =>
      have agrees : start.conclude length tokens = _ :=
        sumAgrees length 0 tokens (Nat.zero_le _) [] rfl
      rw [parse, short, ofTokens_eq_conclude short, agrees]
      exact congrArg _ (funext finish_eq_close)

end Descent

end Neurochip.Rule
