import Neurochip.Proofs.Rule.Recognition
import Neurochip.Proofs.Rule.Scanned

namespace Neurochip

/-!
# A rule is refused at its first hopeless token

Tokens are viable if a rule begins with them.  Wherever the parser stands, there
is a way to a finished rule: a number, if an operand is awaited, and the missing
right parentheses.  Conversely the parser follows every rule.  So it gets behind
viable tokens and behind no others.  The main statement says what this means for
errors: the token that is complained about is the first one that no rule has
there, and the end is complained about only if a longer rule begins in this way.
-/

namespace Rule

/-- Tokens of a rule whose parentheses and negations nest at most 64 deep. -/
def IsSentence (kinds : List TokenKind) : Prop :=
  ∃ expr, Derives 64 .sum kinds expr

/-- Tokens that a rule begins with. -/
def IsViable (kinds : List TokenKind) : Prop :=
  ∃ rest, IsSentence (kinds ++ rest)

namespace Progress

/-- After a product a rule is finished by closing its parentheses. -/
theorem exists_closed (level : Level) (outer : List Level) (product : Expr) :
    ∃ last expr,
      (holding level outer product).advanceAll?
        (List.replicate outer.length .rightParen) = some last ∧
      last.finish? = some expr := by
  induction outer generalizing level product with
  | nil => exact ⟨_, _, rfl, rfl⟩
  | cons next outer inductionHypothesis =>
      -- A right parenthesis supplies the sum of the inner level as an operand of the next one.
      exact inductionHypothesis { sum := next.sum } (next.complete (level.total product))

/-- Wherever the parser stands, some more tokens finish the rule. -/
theorem exists_finished (progress : Progress) :
    ∃ rest last expr,
      progress.advanceAll? rest = some last ∧
      last.finish? = some expr := by
  cases progress with
  | awaiting level outer =>
      obtain ⟨last, expr, closed, finished⟩ :=
        exists_closed { sum := level.sum } outer (level.complete (.literal (0 : Nat)))
      exact ⟨.number 0 :: List.replicate outer.length .rightParen, last, expr, closed, finished⟩
  | holding level outer product =>
      obtain ⟨last, expr, closed, finished⟩ := exists_closed level outer product
      exact ⟨List.replicate outer.length .rightParen, last, expr, closed, finished⟩

end Progress

/-- The sentences are the tokens behind which the parser has finished a rule. -/
theorem isSentence_iff {kinds : List TokenKind} :
    IsSentence kinds ↔
      ∃ last expr,
        Progress.start.advanceAll? kinds = some last ∧
        last.finish? = some expr := by
  constructor
  · rintro ⟨expr, derivation⟩
    have room : Progress.nesting {} [] + 64 ≤ Progress.maxNesting := by decide
    obtain ⟨sum, product, reached, total⟩ :=
      Progress.completes_of_derives derivation {} [] room rfl
    exact ⟨_, expr, reached, congrArg some total⟩
  · rintro ⟨last, expr, reached, finished⟩
    exact ⟨expr, (Progress.hasRead_start.advanceAll reached).derives_of_finish finished⟩

/-- The viable tokens are those that the parser gets behind. -/
theorem isViable_iff {kinds : List TokenKind} :
    IsViable kinds ↔ ∃ progress, Progress.start.advanceAll? kinds = some progress := by
  constructor
  · rintro ⟨rest, sentence⟩
    obtain ⟨last, _, reached, _⟩ := isSentence_iff.mp sentence
    rw [Progress.advanceAll?_append] at reached
    obtain ⟨progress, here, _⟩ := Option.bind_eq_some_iff.mp reached
    exact ⟨progress, here⟩
  · rintro ⟨progress, here⟩
    obtain ⟨rest, last, expr, reached, finished⟩ := progress.exists_finished
    refine ⟨rest, isSentence_iff.mpr ⟨last, expr, ?_, finished⟩⟩
    rw [Progress.advanceAll?_append, here]
    exact reached

/-- Where reading fails, the complaint is about the first token that cannot be passed. -/
theorem Progress.exists_of_read_eq_error
    {progress : Progress}
    {tokens : List Token}
    {error : Error}
    (refused : progress.read tokens = .error error) :
    ∃ index token reached,
      tokens[index]? = some token ∧
      error = token.unexpected ∧
      progress.advanceAll? ((tokens.map Token.kind).take index) = some reached ∧
      progress.advanceAll? ((tokens.map Token.kind).take (index + 1)) = none := by
  induction tokens generalizing progress with
  | nil => cases refused
  | cons token rest inductionHypothesis =>
      unfold read at refused
      split at refused
      · rename_i next advanced
        obtain ⟨index, other, reached, place, complains, passed, stuck⟩ :=
          inductionHypothesis refused
        refine ⟨index + 1, other, reached, place, complains, ?_, ?_⟩
        · simpa only [List.map_cons, List.take_succ_cons, advanceAll?, advanced] using passed
        · simpa only [List.map_cons, List.take_succ_cons, advanceAll?, advanced] using stuck
      · rename_i stuck
        refine ⟨0, token, progress, rfl, (Except.error.inj refused).symm, rfl, ?_⟩
        simp only [List.map_cons, List.take_succ_cons, advanceAll?, stuck]

/-- At most 1024 tokens are refused at the first one that no rule has there, or at the end if they are
viable and no rule. -/
theorem Expr.ofTokens_eq_error
    {tokens : List Token}
    (short : tokens.length ≤ maxTokens)
    {length : Nat}
    {error : Error}
    (refused : ofTokens tokens length = .error error) :
    (∃ index token,
      tokens[index]? = some token ∧
      error = token.unexpected ∧
      IsViable ((tokens.map Token.kind).take index) ∧
      ¬ IsViable ((tokens.map Token.kind).take (index + 1))) ∨
    (error = { token := "<end>", position := length, kind := .unexpectedEnd } ∧
      IsViable (tokens.map Token.kind) ∧
      ¬ IsSentence (tokens.map Token.kind)) := by
  unfold ofTokens at refused
  rw [List.getElem?_eq_none_iff.mpr short] at refused
  rcases bind_eq_error_iff.mp refused with stopped | ⟨progress, read, unfinished⟩
  · obtain ⟨index, token, reached, place, complains, passed, stuck⟩ :=
      Progress.exists_of_read_eq_error stopped
    refine .inl ⟨index, token, place, complains, isViable_iff.mpr ⟨reached, passed⟩, ?_⟩
    rw [isViable_iff, stuck]
    exact fun ⟨_, further⟩ => by cases further
  · have reached := Progress.read_eq_ok_iff.mp read
    split at unfinished
    · cases unfinished
    · rename_i more
      refine .inr ⟨(Except.error.inj unfinished).symm, isViable_iff.mpr ⟨progress, reached⟩, ?_⟩
      rintro sentence
      obtain ⟨last, expr, alsoReached, finished⟩ := isSentence_iff.mp sentence
      obtain rfl := Option.some.inj (reached.symm.trans alsoReached)
      rw [more] at finished
      cases finished

end Rule

namespace LearningRule

open Rule

/-- A rule of at most 1024 tokens is refused for an unexpected token or an unexpected end.  In the
first case the tokens before the one that is complained about begin some rule, and together with it
they begin none.  In the second case all tokens begin a longer rule and are none themselves. -/
theorem errors_come_at_first_hopeless_token
    {source : String}
    {tokens : List Token}
    (scanned : Token.ofSource source = .ok tokens)
    (short : tokens.length ≤ 1024)
    {error : Rule.Error}
    (refused : parse source = .error error) :
    (error.kind = .unexpectedToken ∨ error.kind = .unexpectedEnd) ∧
    (error.kind = .unexpectedToken →
      (∃ (index : Nat) (token : Token),
        tokens[index]? = some token ∧ error = token.unexpected) ∧
      ∀ (index : Nat) (token : Token),
        tokens[index]? = some token → error = token.unexpected →
        IsViable ((tokens.map Token.kind).take index) ∧
        ¬ IsViable ((tokens.map Token.kind).take (index + 1))) ∧
    (error.kind = .unexpectedEnd →
      error = { token := "<end>", position := source.utf8ByteSize, kind := .unexpectedEnd } ∧
      (∃ rest, rest ≠ [] ∧ IsSentence (tokens.map Token.kind ++ rest)) ∧
      ¬ IsSentence (tokens.map Token.kind)) := by
  have stopped : Expr.ofTokens tokens source.utf8ByteSize = .error error := by
    rw [parse, scanned] at refused
    rcases bind_eq_error_iff.mp refused with unscanned | ⟨_, same, refused⟩
    · cases unscanned
    · cases same
      rcases bind_eq_error_iff.mp refused with stopped | ⟨_, _, parsed⟩
      · exact stopped
      · cases parsed
  rcases Expr.ofTokens_eq_error short stopped with
    ⟨index, token, place, rfl, passed, stuck⟩ | ⟨rfl, ⟨rest, sentence⟩, unfinished⟩
  · refine ⟨.inl rfl, fun _ => ⟨⟨index, token, place, rfl⟩, ?_⟩, fun ended => ?_⟩
    · intro other same otherPlace complains
      obtain rfl := (Token.scanned_of_scan scanned).index_eq place otherPlace
        (congrArg Rule.Error.position complains)
      exact ⟨passed, stuck⟩
    · cases ended
  · refine ⟨.inr rfl, fun unexpected => ?_, fun _ => ⟨rfl, ⟨rest, ?_, sentence⟩, unfinished⟩⟩
    · cases unexpected
    · rintro rfl
      rw [List.append_nil] at sentence
      exact unfinished sentence

/-- A second operator in place of an operand is the first token that no rule has there, and an open
parenthesis keeps a rule from ending. -/
theorem errors_come_at_first_hopeless_token_and_at_the_end :
    (∃ tokens,
      Token.ofSource "x1 + * 2" = .ok tokens ∧
      tokens.length ≤ 1024 ∧
      parse "x1 + * 2" = .error { token := "*", position := 5, kind := .unexpectedToken } ∧
      IsViable ((tokens.map Token.kind).take 2) ∧
      ¬ IsViable ((tokens.map Token.kind).take 3)) ∧
    ∃ tokens,
      Token.ofSource "-(y1" = .ok tokens ∧
      tokens.length ≤ 1024 ∧
      parse "-(y1" = .error { token := "<end>", position := 4, kind := .unexpectedEnd } ∧
      (∃ rest, rest ≠ [] ∧ IsSentence (tokens.map Token.kind ++ rest)) ∧
      ¬ IsSentence (tokens.map Token.kind) := by
  have first : Token.ofSource "x1 + * 2" =
      .ok [⟨.trace .x1, "x1", 0⟩, ⟨.plus, "+", 3⟩, ⟨.star, "*", 5⟩, ⟨.number 2, "2", 7⟩] := by
    decide +kernel
  have firstRefused : parse "x1 + * 2" =
      .error { token := "*", position := 5, kind := .unexpectedToken } := by
    decide +kernel
  have second : Token.ofSource "-(y1" =
      .ok [⟨.minus, "-", 0⟩, ⟨.leftParen, "(", 1⟩, ⟨.trace .y1, "y1", 2⟩] := by
    decide +kernel
  have secondRefused : parse "-(y1" =
      .error { token := "<end>", position := 4, kind := .unexpectedEnd } := by
    decide +kernel
  obtain ⟨-, unexpected, -⟩ :=
    errors_come_at_first_hopeless_token first (by decide) firstRefused
  obtain ⟨-, -, ended⟩ :=
    errors_come_at_first_hopeless_token second (by decide) secondRefused
  exact ⟨⟨_, first, by decide, firstRefused, (unexpected rfl).2 2 _ rfl rfl⟩,
    ⟨_, second, by decide, secondRefused, (ended rfl).2⟩⟩

end LearningRule

end Neurochip
