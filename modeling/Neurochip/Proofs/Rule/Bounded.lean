import Neurochip.Proofs.Rule.Agreement
import Neurochip.Proofs.Rule.Calls
import Neurochip.Proofs.Rule.Words

namespace Neurochip

/-!
# Parsing stays within bounds

Trees are no higher than there are tokens.  What is true of the leaves of trees,
and kept by operations and negations, is true of every tree that is built on the
way, and what is true of every depth up to 64 is true of every call that nests.
The main statement applies this to the depths themselves and to literals, which
stay so small that their negations are words.
-/

namespace Rule

namespace Expr

theorem height_pos (expr : Expr) : 0 < expr.height := by
  cases expr <;> simp [height]

/-- A negation adds at most its own node. -/
theorem height_negate_le (expr : Expr) : expr.negate.height ≤ expr.height + 1 := by
  cases expr with
  | literal value => simp [negate, height]
  | trace channel => simp [negate, height]
  | binary operator left right =>
      have positive := height_pos (binary operator left right)
      simp only [negate]
      show max 1 (binary operator left right).height + 1 ≤ _
      omega

end Expr

/-- Each token adds at most one node to the longest way down a tree. -/
theorem Derives.height_le
    {bound : Nat}
    {phrase : Phrase}
    {tokens : List TokenKind}
    {expr : Expr}
    (derivation : Derives bound phrase tokens expr) :
    expr.height ≤ tokens.length := by
  induction derivation with
  | number | trace => exact Nat.le_refl 1
  | negation _ inductionHypothesis =>
      exact Nat.le_trans (Expr.height_negate_le _) (Nat.succ_le_succ inductionHypothesis)
  | parentheses _ inductionHypothesis =>
      simp only [List.length_cons, List.length_append]
      omega
  | factor _ inductionHypothesis => exact inductionHypothesis
  | term _ inductionHypothesis => exact inductionHypothesis
  | times _ _ firstHypothesis secondHypothesis
  | plus _ _ firstHypothesis secondHypothesis
  | minus _ _ firstHypothesis secondHypothesis =>
      simp only [Expr.height, List.length_append, List.length_cons]
      omega

/-- The tokens of a rule are at least as many as its tree is high, and at most 1024. -/
theorem Expr.height_le_of_ofTokens
    {tokens : List Token}
    {length : Nat}
    {expr : Expr}
    (accepted : Expr.ofTokens tokens length = .ok expr) :
    expr.height ≤ tokens.length ∧ tokens.length ≤ 1024 := by
  constructor
  · simpa using (Expr.derives_of_ofTokens accepted).height_le
  · cases found : tokens[Expr.maxTokens]? with
    | none => exact List.getElem?_eq_none_iff.mp found
    | some token =>
        rw [Expr.ofTokens_of_long found] at accepted
        cases accepted

namespace Descent

open Progress

/-- Properties of events and of trees that calls keep, whatever the depth and the tokens are. -/
structure Kept (holds : Event → Prop) (good : Expr → Prop) : Prop where
  enters : ∀ depth, depth ≤ maxNesting → holds (.enters depth)
  negates : ∀ operand, good operand → holds (.negates operand)
  builds : ∀ expr, good expr → holds (.builds expr)
  trace : ∀ channel, good (.trace channel)
  binary : ∀ operator left right, good left → good right → good (.binary operator left right)
  negate : ∀ operand, good operand → good operand.negate

/-- The numbers among some tokens make trees with a property. -/
def GoodNumbers (good : Expr → Prop) (tokens : List Token) : Prop :=
  ∀ token ∈ tokens, ∀ value, token.kind = .number value → good (.literal value)

/-- All events of a run have a property and so has the answered tree, which is one of the known
trees or was built on the way. -/
structure Run.Keeps
    {tokens : List Token}
    (holds : Event → Prop)
    (good : Expr → Prop)
    (known : List Expr)
    (run : Run tokens) :
    Prop where
  events : ∀ event ∈ run.trail, holds event
  good : ∀ parsed, run.outcome = .ok parsed → good parsed.expr
  built : ∀ parsed, run.outcome = .ok parsed →
    parsed.expr ∈ known ∨ .builds parsed.expr ∈ run.trail

variable {holds : Event → Prop} {good : Expr → Prop} {known more : List Expr}
variable {length depth : Nat} {left : Expr} {token : Token} {tokens others rest : List Token}

namespace Run

theorem keeps_refuse (error : Error) : (refuse error : Run tokens).Keeps holds good known where
  events := by simp [refuse]
  good := nofun
  built := nofun

theorem keeps_answer
    {expr : Expr}
    (isGood : good expr)
    (suffix : rest <:+ tokens) :
    (answer expr rest suffix).Keeps holds good [expr] where
  events := by simp [answer]
  good := by
    rintro parsed answered
    obtain rfl := Except.ok.inj answered
    exact isGood
  built := by
    rintro parsed answered
    obtain rfl := Except.ok.inj answered
    exact .inl (List.mem_singleton_self expr)

theorem Keeps.call
    {run : Run tokens}
    (keeps : run.Keeps holds good known) :
    run.call.Keeps holds good known :=
  ⟨keeps.events, keeps.good, keeps.built⟩

/-- Trees that have just been built are known. -/
theorem Keeps.after
    {run : Run tokens}
    (keeps : run.Keeps holds good more)
    {events : List Event}
    (all : ∀ event ∈ events, holds event)
    (built : ∀ expr ∈ more, expr ∈ known ∨ .builds expr ∈ events) :
    (run.after events).Keeps holds good known where
  events := List.forall_mem_append.mpr ⟨all, keeps.events⟩
  good := keeps.good
  built := by
    intro parsed answered
    rcases keeps.built parsed answered with isKnown | isBuilt
    · exact (built parsed.expr isKnown).imp_right (List.mem_append_left _)
    · exact .inr (List.mem_append_right _ isBuilt)

theorem Keeps.within
    {run : Run others}
    (keeps : run.Keeps holds good known)
    (suffix : others <:+ tokens) :
    (run.within suffix).Keeps holds good known where
  events := keeps.events
  good := by
    intro parsed answered
    obtain ⟨inner, outcome, sameExpr, _⟩ := exists_of_within answered
    exact sameExpr ▸ keeps.good inner outcome
  built := by
    intro parsed answered
    obtain ⟨inner, outcome, sameExpr, _⟩ := exists_of_within answered
    exact sameExpr ▸ keeps.built inner outcome

/-- What follows may take the tree that has been answered as known. -/
theorem Keeps.andThen
    {run : Run others}
    (keeps : run.Keeps holds good [])
    {next : Parsed others → Run tokens}
    (onward : ∀ parsed, good parsed.expr → (next parsed).Keeps holds good [parsed.expr]) :
    (run.andThen next).Keeps holds good [] := by
  cases outcome : run.outcome with
  | error error =>
      rw [andThen_of_error outcome]
      exact ⟨keeps.events, nofun, nofun⟩
  | ok parsed =>
      have further := onward parsed (keeps.good parsed outcome)
      rw [andThen_of_ok outcome]
      refine ⟨List.forall_mem_append.mpr ⟨keeps.events, further.events⟩, further.good, ?_⟩
      intro last answered
      refine .inr (List.mem_append.mpr ?_)
      rcases further.built last answered with same | isBuilt
      · obtain same := List.mem_singleton.mp same
        exact .inl (same ▸ (keeps.built parsed outcome).resolve_left List.not_mem_nil)
      · exact .inr isBuilt

theorem Keeps.of_nil {run : Run tokens} (keeps : run.Keeps holds good []) :
    run.Keeps holds good known :=
  ⟨keeps.events, keeps.good, fun parsed answered =>
    .inr ((keeps.built parsed answered).resolve_left List.not_mem_nil)⟩

theorem Keeps.beginWith
    {part : Run tokens}
    (keeps : part.Keeps holds good [])
    {loop : (first : Parsed tokens) → Run first.rest}
    (onward : ∀ first, good first.expr → (loop first).Keeps holds good [first.expr]) :
    (part.beginWith loop).Keeps holds good [] :=
  keeps.andThen fun first isGood => (onward first isGood).within first.suffix

end Run

theorem GoodNumbers.suffix
    (numbers : GoodNumbers good tokens)
    (suffix : rest <:+ tokens) :
    GoodNumbers good rest :=
  fun token member => numbers token (suffix.subset member)

/-- A tree that has just been made is built. -/
theorem Kept.after_build
    (kept : Kept holds good)
    {expr : Expr}
    (isGood : good expr)
    {run : Run tokens}
    (keeps : run.Keeps holds good [expr]) :
    (run.after [.builds expr]).Keeps holds good known := by
  refine keeps.after (List.forall_mem_singleton.mpr (kept.builds expr isGood)) ?_
  rintro other isKnown
  obtain rfl := List.mem_singleton.mp isKnown
  exact .inr (List.mem_singleton_self _)

theorem Kept.leaf
    (kept : Kept holds good)
    {expr : Expr}
    (isGood : good expr) :
    (Run.leaf token expr rest).Keeps holds good [] :=
  kept.after_build isGood (Run.keeps_answer isGood _)

theorem Kept.extendBy
    (kept : Kept holds good)
    (isGood : good left)
    {operator : Operator}
    {part : Run rest}
    (keeps : part.Keeps holds good [])
    {loop : (right : Parsed rest) → Run right.rest}
    (onward : ∀ right : Parsed rest, good (.binary operator left right.expr) →
      (loop right).Keeps holds good [.binary operator left right.expr]) :
    (Run.extendBy token operator left part loop).Keeps holds good known := by
  refine (keeps.andThen fun right isGoodRight => ?_).of_nil
  have whole := kept.binary operator left right.expr isGood isGoodRight
  exact kept.after_build whole ((onward right whole).within _)

theorem Kept.enter
    (kept : Kept holds good)
    (allowed : depth ≤ maxNesting)
    {inner : Run rest}
    (keeps : inner.Keeps holds good []) :
    (Run.enter token depth inner).Keeps holds good [] :=
  (keeps.within _).after (List.forall_mem_singleton.mpr (kept.enters depth allowed)) fun _ => .inl

theorem Kept.negated
    (kept : Kept holds good)
    (operand : Parsed tokens)
    (isGood : good operand.expr) :
    (negated operand).Keeps holds good known := by
  have goodNegation := kept.negate operand.expr isGood
  refine (Run.keeps_answer goodNegation operand.suffix).after ?_ ?_
  · exact List.forall_mem_cons.mpr ⟨kept.negates operand.expr isGood,
      List.forall_mem_singleton.mpr (kept.builds _ goodNegation)⟩
  · rintro expr isKnown
    obtain rfl := List.mem_singleton.mp isKnown
    exact .inr (List.mem_cons_of_mem _ (List.mem_singleton_self _))

theorem keeps_close (inner : Parsed tokens) (isGood : good inner.expr) :
    (close length inner).Keeps holds good [inner.expr] := by
  obtain ⟨expr, rest, suffix⟩ := inner
  cases rest with
  | nil => exact Run.keeps_refuse _
  | cons closing others =>
      by_cases right : closing.kind = .rightParen
      · simp only [close, if_pos right]
        exact Run.keeps_answer isGood _
      · simp only [close, if_neg right]
        exact Run.keeps_refuse _

/-- Every sum keeps what is kept by all that it calls. -/
theorem Kept.sum
    (kept : Kept holds good)
    (length depth : Nat)
    (tokens : List Token)
    (allowed : depth ≤ maxNesting)
    (numbers : GoodNumbers good tokens) :
    (Descent.sum length depth tokens).Keeps holds good [] := by
  refine sum.induct
    (fun depth tokens => depth ≤ maxNesting → GoodNumbers good tokens →
      (Descent.sum length depth tokens).Keeps holds good [])
    (fun depth left tokens => depth ≤ maxNesting → GoodNumbers good tokens → good left →
      (addends length depth left tokens).Keeps holds good [left])
    (fun depth tokens => depth ≤ maxNesting → GoodNumbers good tokens →
      (product length depth tokens).Keeps holds good [])
    (fun depth left tokens => depth ≤ maxNesting → GoodNumbers good tokens → good left →
      (factors length depth left tokens).Keeps holds good [left])
    (fun depth tokens => depth ≤ maxNesting → GoodNumbers good tokens →
      (operand length depth tokens).Keeps holds good [])
    ?sum ?addendsEnd ?addendsOther ?addend ?product ?factorsEnd ?factor ?factorsOther
    ?operandEnd ?number ?trace ?deepestMinus ?minus ?deepestLeftParen ?leftParen ?other
    depth tokens allowed numbers
  case sum =>
    intro depth tokens first further allowed numbers
    rw [Descent.sum]
    exact ((first allowed numbers).beginWith fun parsed isGood =>
      further parsed allowed (numbers.suffix parsed.suffix) isGood).call
  case addendsEnd =>
    intro depth left allowed numbers isGood
    rw [addends_nil]
    exact (Run.keeps_answer isGood _).call
  case addendsOther =>
    intro depth left token rest other allowed numbers isGood
    rw [addends_of_other other]
    exact (Run.keeps_answer isGood _).call
  case addend =>
    intro depth left token rest operator continues next further allowed numbers isGood
    have later := numbers.suffix (List.suffix_cons token rest)
    rw [addends_of_operator continues]
    exact (kept.extendBy isGood (next allowed later) fun right whole =>
      further right allowed (later.suffix right.suffix) whole).call
  case product =>
    intro depth tokens first further allowed numbers
    rw [product]
    exact ((first allowed numbers).beginWith fun parsed isGood =>
      further parsed allowed (numbers.suffix parsed.suffix) isGood).call
  case factorsEnd =>
    intro depth left allowed numbers isGood
    rw [factors_nil]
    exact (Run.keeps_answer isGood _).call
  case factor =>
    intro depth left token rest star next further allowed numbers isGood
    have later := numbers.suffix (List.suffix_cons token rest)
    rw [factors_of_star star]
    exact (kept.extendBy isGood (next allowed later) fun right whole =>
      further right allowed (later.suffix right.suffix) whole).call
  case factorsOther =>
    intro depth left token rest other allowed numbers isGood
    rw [factors_of_other other]
    exact (Run.keeps_answer isGood _).call
  case operandEnd =>
    intro depth allowed numbers
    rw [operand_nil]
    exact (Run.keeps_refuse _).call
  case number =>
    intro depth token rest value number allowed numbers
    rw [operand_of_number number]
    exact (kept.leaf (numbers token List.mem_cons_self value number)).call
  case trace =>
    intro depth token rest channel trace allowed numbers
    rw [operand_of_trace trace]
    exact (kept.leaf (kept.trace channel)).call
  case deepestMinus =>
    intro token rest minus allowed numbers
    rw [operand_of_deepest (.inl minus)]
    exact (Run.keeps_refuse _).call
  case minus =>
    intro depth token rest minus shallow inner allowed numbers
    have deeper : depth + 1 ≤ maxNesting := by omega
    have later := numbers.suffix (List.suffix_cons token rest)
    rw [operand_of_minus minus shallow]
    exact (kept.enter deeper ((inner deeper later).andThen fun operand isGood =>
      kept.negated operand isGood)).call
  case deepestLeftParen =>
    intro token rest leftParen allowed numbers
    rw [operand_of_deepest (.inr leftParen)]
    exact (Run.keeps_refuse _).call
  case leftParen =>
    intro depth token rest leftParen shallow inner allowed numbers
    have deeper : depth + 1 ≤ maxNesting := by omega
    have later := numbers.suffix (List.suffix_cons token rest)
    rw [operand_of_leftParen leftParen shallow]
    exact (kept.enter deeper ((inner deeper later).andThen keeps_close)).call
  case other =>
    intro depth token rest notNumber notTrace notMinus notLeftParen allowed numbers
    rw [operand_of_other notNumber notTrace notMinus notLeftParen]
    exact (Run.keeps_refuse _).call

/-- Parsing keeps what sums keep, and the tree of a rule is among those that it builds. -/
theorem Kept.parse
    (kept : Kept holds good)
    (numbers : GoodNumbers good tokens)
    (length : Nat) :
    (∀ event ∈ (parse tokens length).trail, holds event) ∧
      ∀ expr, (parse tokens length).outcome = .ok expr →
        .builds expr ∈ (parse tokens length).trail := by
  have keeps := kept.sum length 0 tokens (Nat.zero_le _) numbers
  unfold Descent.parse
  cases tokens[Expr.maxTokens]? with
  | some token => exact ⟨by simp, nofun⟩
  | none =>
      refine ⟨keeps.events, fun expr accepted => ?_⟩
      cases outcome : (Descent.sum length 0 tokens).outcome with
      | error error => simp [outcome, Except.bind] at accepted
      | ok parsed =>
          have same : parsed.expr = expr := by
            simp only [outcome, Except.bind, finish] at accepted
            split at accepted
            · exact Except.ok.inj accepted
            · cases accepted
          exact same ▸ (keeps.built parsed outcome).resolve_left List.not_mem_nil

/-- The literals of trees are in range, and the negation of a literal is a word of 64 bits. -/
def Event.InWords : Event → Prop
  | enters _ => True
  | negates operand => ∀ value, operand = .literal value → Bounds.int64.Contains (-value)
  | builds expr => expr.InWords

theorem kept_depths :
    Kept (fun event => ∀ depth, event = .enters depth → depth ≤ 64) fun _ => True where
  enters := by
    rintro depth allowed other same
    obtain rfl := Event.enters.inj same
    exact allowed
  negates := nofun
  builds := nofun
  trace := fun _ => trivial
  binary := fun _ _ _ _ _ => trivial
  negate := fun _ _ => trivial

theorem kept_words : Kept Event.InWords Expr.InWords where
  enters := fun _ _ => trivial
  negates := by
    rintro operand inWords value rfl
    obtain ⟨lower, upper⟩ := inWords
    simp only [literalRange] at lower upper
    show -9223372036854775808 ≤ -value ∧ -value ≤ 9223372036854775807
    omega
  builds := fun _ inWords => inWords
  trace := fun _ => trivial
  binary := fun _ _ _ left right => ⟨left, right⟩
  negate := fun _ inWords => inWords.negate

/-- The numbers of a source are literals in range. -/
theorem goodNumbers_of_scan
    {source : String}
    (scanned : Token.ofSource source = .ok tokens) :
    GoodNumbers Expr.InWords tokens := by
  intro token member value number
  have small := (Token.scanned_of_scan scanned).inWords token member
  rw [number] at small
  have below : value < 9223372036854775808 := small
  show -9223372036854775807 ≤ (value : Int) ∧ (value : Int) ≤ 9223372036854775807
  omega

/-- What happens while tokens are parsed: calls end, in proportion to the tokens, with the outcome of
the parser that keeps levels, and nest at most 64 deep. -/
structure Bounded (tokens : List Token) (length : Nat) (report : Report) : Prop where
  outcome : report.outcome = Expr.ofTokens tokens length
  calls : report.calls ≤ 5 * tokens.length + 3
  depths : ∀ depth, .enters depth ∈ report.trail → depth ≤ 64

theorem bounded_parse (tokens : List Token) (length : Nat) :
    Bounded tokens length (parse tokens length) where
  outcome := outcome_parse tokens length
  calls := calls_parse_le tokens length
  depths := fun depth member =>
    (kept_depths.parse (fun _ _ _ _ => trivial) length).1 _ member depth rfl

end Descent

end Rule

namespace LearningRule

open Rule

/-- Parsing by recursive descent, which has the outcome of parsing, ends for all tokens and nests at
most 64 deep.  For a source it builds trees whose literals are in range, so that it can negate
literals.  Among them is the tree of a rule that is accepted, which is no higher than the tokens
of the rule are many, and these are at most 1024. -/
theorem parse_stays_bounded :
    (∀ tokens length, Descent.Bounded tokens length (Descent.parse tokens length)) ∧
    (∀ source tokens, Token.ofSource source = .ok tokens →
      ∀ event ∈ (Descent.parse tokens source.utf8ByteSize).trail, event.InWords) ∧
    (∀ source rule, parse source = .ok rule →
      ∃ tokens, Token.ofSource source = .ok tokens ∧
        .builds rule.expr ∈ (Descent.parse tokens source.utf8ByteSize).trail ∧
        rule.expr.height ≤ tokens.length ∧ tokens.length ≤ 1024) := by
  refine ⟨Descent.bounded_parse, fun source tokens scanned => ?_, fun source rule accepted => ?_⟩
  · exact (Descent.kept_words.parse (Descent.goodNumbers_of_scan scanned) _).1
  · obtain ⟨tokens, scanned, accepted⟩ := bind_eq_ok_iff.mp accepted
    obtain ⟨expr, parsed, accepted⟩ := bind_eq_ok_iff.mp accepted
    obtain rfl := pure_eq_ok_iff.mp accepted
    have built := (Descent.kept_words.parse (Descent.goodNumbers_of_scan scanned)
      source.utf8ByteSize).2
    exact ⟨tokens, scanned, built expr ((Descent.outcome_parse tokens _).trans parsed),
      Expr.height_le_of_ofTokens parsed⟩

/-- The rule "2 - -(x1 * -3)" and the literals that it negates. -/
theorem parse_stays_bounded_for_negations :
    ∃ tokens rule, Token.ofSource "2 - -(x1 * -3)" = .ok tokens ∧
      parse "2 - -(x1 * -3)" = .ok rule ∧
      (∀ event ∈ (Descent.parse tokens 14).trail, event.InWords) ∧
      rule.expr.height ≤ tokens.length ∧ tokens.length ≤ 1024 := by
  have scanned : Token.ofSource "2 - -(x1 * -3)" =
      .ok [⟨.number 2, "2", 0⟩, ⟨.minus, "-", 2⟩, ⟨.minus, "-", 4⟩, ⟨.leftParen, "(", 5⟩,
        ⟨.trace .x1, "x1", 6⟩, ⟨.star, "*", 9⟩, ⟨.minus, "-", 11⟩, ⟨.number 3, "3", 12⟩,
        ⟨.rightParen, ")", 13⟩] := by
    decide +kernel
  have accepted : parse "2 - -(x1 * -3)" =
      .ok ⟨"2 - -(x1 * -3)", .binary .sub (.literal 2)
        (.binary .sub (.literal 0) (.binary .mul (.trace .x1) (.literal (-3))))⟩ := by
    decide +kernel
  obtain ⟨always, inWords, bounded⟩ := parse_stays_bounded
  obtain ⟨tokens, again, _, low, few⟩ := bounded _ _ accepted
  exact ⟨tokens, _, again, accepted, inWords _ tokens again, low, few⟩

end LearningRule

end Neurochip
