import Neurochip.Proofs.Rule.Recognition

namespace Neurochip

/-!
# A rule is evaluated whenever its traces may have changed

The value of a rule depends on the traces in its tree alone, and these are the
traces of its source: negations and parentheses bring none in and leave none
out.  A spike changes the traces of one side.  The main statement says which
spikes trigger a rule, and that a spike that does not trigger a rule with traces
changes none that the rule depends on.
-/

namespace Rule

/-- The channel that a token names. -/
def TokenKind.trace? : TokenKind → Option Channel
  | .trace channel => some channel
  | _ => none

namespace Expr

/-- The traces in an expression, from left to right. -/
def channels : Expr → List Channel
  | literal _ => []
  | trace channel => [channel]
  | binary _ left right => left.channels ++ right.channels

/-- An expression reads a trace of some kind exactly when it contains one. -/
theorem reads_eq_any (condition : Channel → Bool) (expr : Expr) :
    expr.reads condition = expr.channels.any condition := by
  induction expr with
  | literal value => rfl
  | trace channel => simp [reads, channels]
  | binary operator left right leftHypothesis rightHypothesis =>
      simp only [reads, channels, List.any_append, leftHypothesis, rightHypothesis]

/-- Traces that agree wherever an expression reads them give it the same value. -/
theorem evaluate_congr
    {expr : Expr}
    {first second : Traces}
    (agree : ∀ channel ∈ expr.channels, first.get channel = second.get channel) :
    expr.evaluate first = expr.evaluate second := by
  induction expr with
  | literal value => rfl
  | trace channel => exact agree channel (List.mem_singleton_self channel)
  | binary operator left right leftHypothesis rightHypothesis =>
      have leftSame := leftHypothesis fun channel member =>
        agree channel (List.mem_append_left _ member)
      have rightSame := rightHypothesis fun channel member =>
        agree channel (List.mem_append_right _ member)
      simp only [evaluate, leftSame, rightSame]

/-- Negating an expression leaves its traces. -/
@[simp] theorem channels_negate (expr : Expr) : expr.negate.channels = expr.channels := by
  cases expr <;> rfl

end Expr

/-- The traces of a tree are those that its tokens name, in the same order. -/
theorem Derives.channels_eq
    {bound : Nat}
    {phrase : Phrase}
    {tokens : List TokenKind}
    {expr : Expr}
    (derivation : Derives bound phrase tokens expr) :
    expr.channels = tokens.filterMap TokenKind.trace? := by
  induction derivation with
  | number | trace => rfl
  | negation _ inductionHypothesis =>
      rw [Expr.channels_negate, inductionHypothesis]
      rfl
  | parentheses _ inductionHypothesis =>
      simp [List.filterMap_cons, TokenKind.trace?, inductionHypothesis]
  | factor _ inductionHypothesis => exact inductionHypothesis
  | term _ inductionHypothesis => exact inductionHypothesis
  | times _ _ firstHypothesis secondHypothesis
  | plus _ _ firstHypothesis secondHypothesis
  | minus _ _ firstHypothesis secondHypothesis =>
      simp only [Expr.channels, firstHypothesis, secondHypothesis, List.filterMap_append,
        List.filterMap_cons, TokenKind.trace?]

end Rule

namespace LearningRule

open Rule

variable {rule : LearningRule}

/-- A parsed rule contains the traces that its tokens name. -/
theorem channels_of_parse
    {source : String}
    (accepted : parse source = .ok rule) :
    ∃ tokens,
      Token.ofSource source = .ok tokens ∧
      rule.expr.channels = tokens.filterMap (·.kind.trace?) := by
  obtain ⟨tokens, scanned, accepted⟩ := bind_eq_ok_iff.mp accepted
  obtain ⟨expr, parsed, same⟩ := bind_eq_ok_iff.mp accepted
  obtain rfl := pure_eq_ok_iff.mp same
  refine ⟨tokens, scanned, ?_⟩
  have named := (Expr.derives_of_ofTokens parsed).channels_eq
  rwa [List.filterMap_map] at named

theorem readsPre_iff :
    rule.readsPre = true ↔ .x1 ∈ rule.expr.channels ∨ .x2 ∈ rule.expr.channels := by
  rw [readsPre, Expr.reads_eq_any, List.any_eq_true]
  constructor
  · rintro ⟨channel, member, pre⟩
    cases channel with
    | x1 => exact .inl member
    | x2 => exact .inr member
    | y1 | y2 | y3 => cases pre
  · rintro (member | member)
    · exact ⟨.x1, member, rfl⟩
    · exact ⟨.x2, member, rfl⟩

theorem readsPost_iff :
    rule.readsPost = true ↔
      .y1 ∈ rule.expr.channels ∨ .y2 ∈ rule.expr.channels ∨ .y3 ∈ rule.expr.channels := by
  rw [readsPost, Expr.reads_eq_any, List.any_eq_true]
  constructor
  · rintro ⟨channel, member, post⟩
    cases channel with
    | x1 | x2 => cases post
    | y1 => exact .inl member
    | y2 => exact .inr (.inl member)
    | y3 => exact .inr (.inr member)
  · rintro (member | member | member)
    · exact ⟨.y1, member, rfl⟩
    · exact ⟨.y2, member, rfl⟩
    · exact ⟨.y3, member, rfl⟩

/-- A rule without traces reads neither side. -/
theorem channels_eq_nil_iff :
    rule.expr.channels = [] ↔ rule.readsPre = false ∧ rule.readsPost = false := by
  rw [readsPre, readsPost, Expr.reads_eq_any, Expr.reads_eq_any]
  constructor
  · intro none
    simp [none]
  · rintro ⟨noPre, noPost⟩
    refine List.eq_nil_iff_forall_not_mem.mpr fun channel member => ?_
    have notPre := List.any_eq_false.mp noPre channel member
    have notPost := List.any_eq_false.mp noPost channel member
    simp [notPre] at notPost

/-- Which spikes trigger a rule, by the sides that it reads. -/
theorem isTriggered_iff (pre post : Bool) :
    rule.isTriggered pre post = true ↔
      (pre = true ∧ rule.readsPre = true) ∨
      (post = true ∧ rule.readsPost = true) ∨
      (rule.expr.channels = [] ∧ (pre = true ∨ post = true)) := by
  rw [channels_eq_nil_iff]
  unfold isTriggered
  cases rule.readsPre <;> cases rule.readsPost <;> simp

/-- A rule that a spike of the source does not trigger reads no trace of the source side. -/
theorem readsPre_eq_false_of_silent
    {post : Bool}
    (silent : rule.isTriggered true post = false) :
    rule.readsPre = false := by
  unfold isTriggered at silent
  cases reads : rule.readsPre with
  | false => rfl
  | true => simp [reads] at silent

/-- A rule that a spike of the target does not trigger reads no trace of the target side. -/
theorem readsPost_eq_false_of_silent
    {pre : Bool}
    (silent : rule.isTriggered pre true = false) :
    rule.readsPost = false := by
  unfold isTriggered at silent
  cases reads : rule.readsPost with
  | false => rfl
  | true => simp [reads] at silent

/-- A rule that reads no trace of the source side has the same value at traces that agree on the
target side. -/
theorem evaluate_eq_of_same_post
    (noPre : rule.readsPre = false)
    {first second : Traces}
    (sameY1 : first.y1 = second.y1)
    (sameY2 : first.y2 = second.y2)
    (sameY3 : first.y3 = second.y3) :
    rule.evaluate first = rule.evaluate second := by
  rw [readsPre, Expr.reads_eq_any, List.any_eq_false] at noPre
  refine Expr.evaluate_congr fun channel member => ?_
  cases channel with
  | x1 => exact absurd rfl (noPre .x1 member)
  | x2 => exact absurd rfl (noPre .x2 member)
  | y1 => exact sameY1
  | y2 => exact sameY2
  | y3 => exact sameY3

/-- A rule that reads no trace of the target side has the same value at traces that agree on the
source side. -/
theorem evaluate_eq_of_same_pre
    (noPost : rule.readsPost = false)
    {first second : Traces}
    (sameX1 : first.x1 = second.x1)
    (sameX2 : first.x2 = second.x2) :
    rule.evaluate first = rule.evaluate second := by
  rw [readsPost, Expr.reads_eq_any, List.any_eq_false] at noPost
  refine Expr.evaluate_congr fun channel member => ?_
  cases channel with
  | x1 => exact sameX1
  | x2 => exact sameX2
  | y1 => exact absurd rfl (noPost .y1 member)
  | y2 => exact absurd rfl (noPost .y2 member)
  | y3 => exact absurd rfl (noPost .y3 member)

/-- A rule is triggered by a spike of a side whose traces it contains, and by any spike if it
contains none; the traces that it contains are those that its source names.  A rule that a spike of
one side alone does not trigger has the same value at traces that agree on the other side. -/
theorem trigger_skips_nothing_relevant
    {source : String}
    (accepted : parse source = .ok rule) :
    (∃ tokens,
      Token.ofSource source = .ok tokens ∧
      rule.expr.channels = tokens.filterMap (·.kind.trace?)) ∧
    (∀ pre post,
      rule.isTriggered pre post = true ↔
        (pre = true ∧ (.x1 ∈ rule.expr.channels ∨ .x2 ∈ rule.expr.channels)) ∨
        (post = true ∧
          (.y1 ∈ rule.expr.channels ∨ .y2 ∈ rule.expr.channels ∨ .y3 ∈ rule.expr.channels)) ∨
        (rule.expr.channels = [] ∧ (pre = true ∨ post = true))) ∧
    (rule.isTriggered true false = false →
      ∀ first second : Traces,
        first.y1 = second.y1 → first.y2 = second.y2 → first.y3 = second.y3 →
          rule.evaluate first = rule.evaluate second) ∧
    (rule.isTriggered false true = false →
      ∀ first second : Traces,
        first.x1 = second.x1 → first.x2 = second.x2 →
          rule.evaluate first = rule.evaluate second) := by
  refine ⟨channels_of_parse accepted, fun pre post => ?_, fun silent first second => ?_,
    fun silent first second => ?_⟩
  · rw [isTriggered_iff, readsPre_iff, readsPost_iff]
  · exact evaluate_eq_of_same_post (readsPre_eq_false_of_silent silent)
  · exact evaluate_eq_of_same_pre (readsPost_eq_false_of_silent silent)

/-- A negated product of traces of the target is not triggered by a spike of the source alone, and
does not depend on the traces of the source. -/
theorem trigger_skips_nothing_relevant_negated :
    ∃ rule,
      parse "-(y2*3) - 1" = .ok rule ∧
      rule.isTriggered true false = false ∧
      rule.isTriggered false true = true ∧
      ∀ x1 x2, rule.evaluate ⟨x1, x2, 5, 7, 9⟩ = rule.evaluate ⟨0, 0, 5, 7, 9⟩ := by
  have accepted : parse "-(y2*3) - 1" = .ok
      { source := "-(y2*3) - 1",
        expr := .binary .sub
          (.binary .sub (.literal 0) (.binary .mul (.trace .y2) (.literal 3))) (.literal 1) } := by
    decide +kernel
  obtain ⟨-, triggered, onlyPost, -⟩ := trigger_skips_nothing_relevant accepted
  exact ⟨_, accepted, rfl, (triggered false true).mpr (by decide),
    fun x1 x2 => onlyPost rfl _ _ rfl rfl rfl⟩

end LearningRule

end Neurochip
