import Mathlib.Data.List.TakeWhile
import Neurochip.Proofs.Rule.Lossless
import Neurochip.Proofs.Rule.Viable

namespace Neurochip

/-!
# Errors point at the source

A source is faulty where a character is no symbol, or where a longest word is
neither a number nor the name of a trace.  The scanner gets as far as the first
fault and complains about it, and the parser is not asked before the scanner is
done.  The main statement says so, and that the text of every error stands in
the source at the byte that the error names, except at the end.
-/

namespace Rule

/-- Errors of single words and symbols, as opposed to those of their order. -/
def ErrorKind.IsLexical : ErrorKind → Prop
  | unknownIdentifier => True
  | disallowedOperator => True
  | malformedLiteral => True
  | unexpectedToken => False
  | unexpectedEnd => False

namespace Token

/-- A word that could not be longer where it stands. -/
structure LongestWord (before word after : List Char) : Prop where
  inWord : ∀ character ∈ word, isWordChar character = true
  start : ∀ last, before.getLast? = some last → isWordChar last = false
  stop : ∀ next, after.head? = some next → isWordChar next = false

/-- A piece of a source that no token can be made of, with what stands before and behind it. -/
inductive Fault (before : List Char) : List Char → List Char → ErrorKind → Prop where
  | symbol {character : Char} {after : List Char} :
      isBlank character = false →
      isWordChar character = false →
      ofSymbol? character = none →
      Fault before [character] after .disallowedOperator
  | number {first : Char} {rest after : List Char} :
      LongestWord before (first :: rest) after →
      startsNumber first = true →
      number? (first :: rest) = none →
      Fault before (first :: rest) after .malformedLiteral
  | name {first : Char} {rest after : List Char} :
      LongestWord before (first :: rest) after →
      startsNumber first = false →
      Channel.ofName? (String.ofList (first :: rest)) = none →
      Fault before (first :: rest) after .unknownIdentifier

/-- A longest word is found where it stands. -/
theorem LongestWord.takeWhile_append
    {before after : List Char}
    {first : Char}
    {rest : List Char}
    (longest : LongestWord before (first :: rest) after) :
    (rest ++ after).takeWhile isWordChar = rest := by
  obtain ⟨_, restInWord⟩ := List.forall_mem_cons.mp longest.inWord
  rw [List.takeWhile_append_of_pos restInWord]
  cases after with
  | nil => simp
  | cons next after => simp [longest.stop next rfl]

/-- No word reaches across the place in front of a fault. -/
theorem Fault.clean
    {before text after : List Char}
    {kind : ErrorKind}
    (fault : Fault before text after kind) :
    CleanCut before (text ++ after) := by
  cases fault with
  | symbol _ notWordChar _ => exact cleanCut_cons_of_false notWordChar before after
  | number longest | name longest =>
      intro last next ends _ lastInWord
      rw [longest.start last ends] at lastInWord
      cases lastInWord

/-- A fault stays a fault behind anything that ends in front of it cleanly. -/
theorem Fault.of_clean
    {before other text after : List Char}
    {kind : ErrorKind}
    (fault : Fault before text after kind)
    (clean : CleanCut other (text ++ after)) :
    Fault other text after kind := by
  have start : ∀ first rest, text = first :: rest → isWordChar first = true →
      ∀ last, other.getLast? = some last → isWordChar last = false := by
    rintro first rest rfl firstInWord last ends
    rw [Bool.eq_false_iff]
    intro lastInWord
    rw [clean last first ends rfl lastInWord] at firstInWord
    cases firstInWord
  cases fault with
  | symbol notBlank notWordChar unknown => exact .symbol notBlank notWordChar unknown
  | number longest starts unknown =>
      have firstInWord := longest.inWord _ List.mem_cons_self
      exact .number ⟨longest.inWord, start _ _ rfl firstInWord, longest.stop⟩ starts unknown
  | name longest starts unknown =>
      have firstInWord := longest.inWord _ List.mem_cons_self
      exact .name ⟨longest.inWord, start _ _ rfl firstInWord, longest.stop⟩ starts unknown

theorem notBlank_of_wordChar {character : Char} (wordChar : isWordChar character = true) :
    isBlank character = false := by
  rw [Bool.eq_false_iff]
  intro blank
  rw [isWordChar_of_blank blank] at wordChar
  cases wordChar

/-- The scanner complains about a fault that it comes to. -/
theorem Fault.scan_eq
    {before text after : List Char}
    {kind : ErrorKind}
    (fault : Fault before text after kind)
    (position : Nat) :
    scan position (text ++ after) = .error ⟨String.ofList text, position, kind⟩ := by
  cases fault with
  | symbol notBlank notWordChar unknown =>
      rw [List.singleton_append, scan_unknown notBlank notWordChar unknown,
        String.singleton_eq_ofList]
  | number longest starts unknown =>
      have wordChar := longest.inWord _ List.mem_cons_self
      rw [List.cons_append, scan_word (notBlank_of_wordChar wordChar) wordChar,
        longest.takeWhile_append]
      simp only [ofWord, starts, unknown]
      rfl
  | name longest starts unknown =>
      have wordChar := longest.inWord _ List.mem_cons_self
      rw [List.cons_append, scan_word (notBlank_of_wordChar wordChar) wordChar,
        longest.takeWhile_append]
      simp only [ofWord, starts, unknown]
      rfl

/-- A faulty source is scanned as far as the fault, if not refused before. -/
theorem Fault.scan_append
    {before text after : List Char}
    {kind : ErrorKind}
    (fault : Fault before text after kind)
    (position : Nat) :
    scan position (before ++ (text ++ after)) =
      scan position before >>= fun _ =>
        .error ⟨String.ofList text, position + byteLength before, kind⟩ := by
  rw [Token.scan_append fault.clean, fault.scan_eq]
  rfl

theorem longestWord_takeWhile
    {first : Char}
    (wordChar : isWordChar first = true)
    (rest : List Char) :
    LongestWord [] (first :: rest.takeWhile isWordChar) (rest.dropWhile isWordChar) where
  inWord := List.forall_mem_cons.mpr ⟨wordChar, fun _ member => List.mem_takeWhile_imp member⟩
  start _ ends := by cases ends
  stop next starts := by
    have apart := List.head?_dropWhile_not isWordChar rest
    rwa [starts] at apart

/-- A longest word that is no token is a fault. -/
theorem fault_of_ofWord
    {before after : List Char}
    {first : Char}
    {rest : List Char}
    (longest : LongestWord before (first :: rest) after)
    {position : Nat}
    {error : Error}
    (refused : ofWord position first (first :: rest) = .error error) :
    Fault before (first :: rest) after error.kind ∧
    error.token = String.ofList (first :: rest) ∧
    error.position = position := by
  unfold ofWord at refused
  dsimp only at refused
  split at refused
  · rename_i starts
    split at refused
    · cases refused
    · rename_i unknown
      obtain rfl := Except.error.inj refused
      exact ⟨.number longest starts unknown, rfl, rfl⟩
  · rename_i starts
    split at refused
    · cases refused
    · rename_i unknown
      obtain rfl := Except.error.inj refused
      exact ⟨.name longest (Bool.eq_false_iff.mpr starts) unknown, rfl, rfl⟩

/-- A word that is a token is scanned to it. -/
theorem scan_of_longestWord
    {before after : List Char}
    {first : Char}
    {rest : List Char}
    (longest : LongestWord before (first :: rest) after)
    {position : Nat}
    {token : Token}
    (isToken : ofWord position first (first :: rest) = .ok token) :
    scan position (first :: rest) = .ok [token] := by
  obtain ⟨wordChar, restInWord⟩ := List.forall_mem_cons.mp longest.inWord
  rw [scan_word (notBlank_of_wordChar wordChar) wordChar,
    List.takeWhile_eq_self_iff.mpr restInWord, List.dropWhile_eq_nil_iff.mpr restInWord, isToken,
    scan_nil]
  rfl

/-- The error describes the first fault of a source that starts at the given byte. -/
def StopsAt (position : Nat) (source : List Char) (error : Error) : Prop :=
  ∃ before text after,
    source = before ++ (text ++ after) ∧
    Fault before text after error.kind ∧
    error.token = String.ofList text ∧
    error.position = position + byteLength before ∧
    ∃ tokens, scan position before = .ok tokens

/-- A fault behind a piece without faults is the first one of both. -/
theorem StopsAt.behind
    {position : Nat}
    {piece rest : List Char}
    {error : Error}
    (stops : StopsAt (position + byteLength piece) rest error)
    (clean : CleanCut piece rest)
    {tokens : List Token}
    (scanned : scan position piece = .ok tokens) :
    StopsAt position (piece ++ rest) error := by
  obtain ⟨before, text, after, rfl, fault, token_eq, position_eq, others, scannedBefore⟩ := stops
  refine ⟨piece ++ before, text, after, by simp, ?_, token_eq, ?_, tokens ++ others, ?_⟩
  · exact fault.of_clean (clean.append fault.clean)
  · rw [position_eq, byteLength_append, Nat.add_assoc]
  · rw [Token.scan_append clean.left, scanned]
    show (scan _ before >>= _) = _
    rw [scannedBefore]
    rfl

/-- A source that the scanner refuses has a first fault, which the error describes. -/
theorem stopsAt_of_scan
    {position : Nat}
    {source : List Char}
    {error : Error}
    (refused : scan position source = .error error) :
    StopsAt position source error := by
  induction position, source using scan_induction generalizing error with
  | nothing position =>
      rw [scan_nil] at refused
      cases refused
  | blank position first rest blank inductionHypothesis =>
      rw [scan_blank blank] at refused
      rw [← byteLength_singleton] at refused inductionHypothesis
      have clean := cleanCut_singleton_of_false (isWordChar_of_blank blank) rest
      have scanned : scan position [first] = .ok [] := by
        rw [scan_blank blank, scan_nil]
      exact (inductionHypothesis refused).behind clean scanned
  | word position first rest notBlank wordChar inductionHypothesis =>
      have longest := longestWord_takeWhile wordChar rest
      have parts := eq_word_append first rest
      rw [scan_word notBlank wordChar] at refused
      rcases bind_eq_error_iff.mp refused with refused | ⟨token, isToken, refused⟩
      · obtain ⟨fault, token_eq, position_eq⟩ := fault_of_ofWord longest refused
        exact ⟨[], _, _, parts, fault, token_eq, position_eq, [], scan_nil⟩
      · rcases bind_eq_error_iff.mp refused with refused | ⟨_, _, answered⟩
        · rw [parts]
          exact (inductionHypothesis refused).behind (cleanCut_dropWhile _ rest)
            (scan_of_longestWord longest isToken)
        · cases answered
  | symbol position first rest kind notBlank notWordChar known inductionHypothesis =>
      rw [scan_symbol notBlank notWordChar known] at refused
      rcases bind_eq_error_iff.mp refused with refused | ⟨_, _, answered⟩
      · have clean := cleanCut_singleton_of_false notWordChar rest
        have scanned : scan position [first] = .ok [⟨kind, String.singleton first, position⟩] := by
          rw [scan_symbol notBlank notWordChar known, scan_nil]
          rfl
        rw [← byteLength_singleton] at refused inductionHypothesis
        exact (inductionHypothesis refused).behind clean scanned
      · cases answered
  | unknown position first rest notBlank notWordChar unknown =>
      rw [scan_unknown notBlank notWordChar unknown] at refused
      obtain rfl := Except.error.inj refused
      exact ⟨[], [first], rest, rfl, .symbol notBlank notWordChar unknown,
        String.singleton_eq_ofList, rfl, [], scan_nil⟩

/-- The error of a source with a fault comes at this fault or before it. -/
theorem exists_error_of_fault
    {position : Nat}
    {before text after : List Char}
    {kind : ErrorKind}
    (fault : Fault before text after kind) :
    ∃ error,
      scan position (before ++ (text ++ after)) = .error error ∧
      error.position ≤ position + byteLength before := by
  rw [fault.scan_append]
  cases scanned : scan position before with
  | ok tokens => exact ⟨_, rfl, Nat.le_refl _⟩
  | error error =>
      obtain ⟨front, text, behind, rfl, _, _, position_eq, _⟩ := stopsAt_of_scan scanned
      refine ⟨error, rfl, ?_⟩
      rw [position_eq, byteLength_append]
      omega

theorem Fault.isLexical
    {before text after : List Char}
    {kind : ErrorKind}
    (fault : Fault before text after kind) :
    kind.IsLexical := by
  cases fault <;> trivial

theorem Fault.text_ne_nil
    {before text after : List Char}
    {kind : ErrorKind}
    (fault : Fault before text after kind) :
    text ≠ [] := by
  cases fault <;> exact List.cons_ne_nil _ _

end Token

/-- An error about tokens is about one of them, or about the end. -/
theorem Expr.exists_of_ofTokens_eq_error
    {tokens : List Token}
    {length : Nat}
    {error : Error}
    (refused : ofTokens tokens length = .error error) :
    (∃ token ∈ tokens, error = token.unexpected) ∨
    error = { token := "<end>", position := length, kind := .unexpectedEnd } := by
  rcases Nat.lt_or_ge maxTokens tokens.length with long | short
  · rw [ofTokens_of_long (List.getElem?_eq_getElem long)] at refused
    exact .inl ⟨_, List.getElem_mem long, (Except.error.inj refused).symm⟩
  · rcases ofTokens_eq_error short refused with ⟨_, token, place, complains, _⟩ | ⟨ended, _⟩
    · exact .inl ⟨token, List.mem_of_getElem? place, complains⟩
    · exact .inr ended

/-- A text stands in a source at the given byte. -/
def StandsAt (source : String) (position : Nat) (text : String) : Prop :=
  ∃ before after, source = before ++ text ++ after ∧ before.utf8ByteSize = position

/-- An error describes a fault of a source, whether the scanner comes to it or not. -/
def Error.DescribesFault (error : Error) (source : String) : Prop :=
  ∃ before after : String,
    source = before ++ error.token ++ after ∧
    before.utf8ByteSize = error.position ∧
    Token.Fault before.toList error.token.toList after.toList error.kind

end Rule

namespace LearningRule

open Rule

/-- A source is refused for its first fault if it has one, and else for the order of its tokens. -/
theorem parse_eq_error_iff
    {source : String}
    {error : Rule.Error} :
    parse source = .error error ↔
      Token.ofSource source = .error error ∨
      ∃ tokens,
        Token.ofSource source = .ok tokens ∧
        Expr.ofTokens tokens source.utf8ByteSize = .error error := by
  unfold parse
  rw [bind_eq_error_iff]
  refine or_congr_right (exists_congr fun tokens => and_congr_right fun _ => ?_)
  rw [bind_eq_error_iff]
  refine or_iff_left ?_
  rintro ⟨_, _, answered⟩
  cases answered

/-- The error of the scanner describes a fault, and what is in front of the fault has none. -/
theorem describesFault_of_ofSource
    {source : String}
    {error : Rule.Error}
    (refused : Token.ofSource source = .error error) :
    error.DescribesFault source ∧
    ∃ before after tokens,
      source = before ++ error.token ++ after ∧
      before.utf8ByteSize = error.position ∧
      Token.ofSource before = .ok tokens := by
  obtain ⟨before, text, after, parts, fault, token_eq, position_eq, tokens, scanned⟩ :=
    Token.stopsAt_of_scan refused
  have whole : source = String.ofList before ++ error.token ++ String.ofList after := by
    apply String.toList_injective
    simp [parts, token_eq]
  have size : (String.ofList before).utf8ByteSize = error.position := by
    rw [← byteLength_toList, String.toList_ofList, position_eq, Nat.zero_add]
  refine ⟨⟨_, _, whole, size, ?_⟩, _, _, tokens, whole, size, ?_⟩
  · rwa [String.toList_ofList, String.toList_ofList, token_eq, String.toList_ofList]
  · rwa [Token.ofSource, String.toList_ofList]

/-- The error of a rule other than an unexpected end shows a piece of its source. -/
theorem standsAt_of_parse
    {source : String}
    {error : Rule.Error}
    (refused : parse source = .error error)
    (inside : error.kind ≠ .unexpectedEnd) :
    error.token ≠ "" ∧ StandsAt source error.position error.token := by
  rcases parse_eq_error_iff.mp refused with unscanned | ⟨tokens, scanned, stopped⟩
  · obtain ⟨⟨before, after, parts, size, fault⟩, _⟩ := describesFault_of_ofSource unscanned
    refine ⟨fun empty => fault.text_ne_nil ?_, before, after, parts, size⟩
    rw [empty]
    rfl
  · have lossless := Token.lossless_of_ofSource scanned
    rcases Expr.exists_of_ofTokens_eq_error stopped with ⟨token, member, rfl⟩ | rfl
    · obtain ⟨before, after, parts, size, _⟩ := lossless.slices token member
      have nonempty := Token.Spelled.text_ne_empty (lossless.spelled token member)
      exact ⟨nonempty, before, after, parts, size⟩
    · exact absurd rfl inside

/-- The scanner reports the lexical errors of a rule, and no others. -/
theorem ofSource_eq_error_iff
    {source : String}
    {error : Rule.Error} :
    Token.ofSource source = .error error ↔
      parse source = .error error ∧ error.kind.IsLexical := by
  rw [parse_eq_error_iff]
  constructor
  · intro unscanned
    obtain ⟨⟨_, _, _, _, fault⟩, _⟩ := describesFault_of_ofSource unscanned
    exact ⟨.inl unscanned, fault.isLexical⟩
  · rintro ⟨unscanned | ⟨tokens, _, stopped⟩, lexical⟩
    · exact unscanned
    · rcases Expr.exists_of_ofTokens_eq_error stopped with ⟨token, _, rfl⟩ | rfl
      · exact lexical.elim
      · exact lexical.elim

/-- An unexpected end is reported behind the last byte of a rule, and every other error shows a piece of
the rule at the byte that it names.  A rule with a fault in a word or a symbol is refused for its first
such fault, whatever else is wrong with it, and what is in front of this fault can be scanned. -/
theorem errors_point_at_the_source (source : String) :
    (∀ error, parse source = .error error →
      (error.kind = .unexpectedEnd →
        error.token = "<end>" ∧ error.position = source.utf8ByteSize) ∧
      (error.kind ≠ .unexpectedEnd →
        error.token ≠ "" ∧ StandsAt source error.position error.token)) ∧
    (∀ error, Token.ofSource source = .error error ↔
      parse source = .error error ∧ error.kind.IsLexical) ∧
    (∀ fault : Rule.Error, fault.DescribesFault source →
      ∃ error,
        parse source = .error error ∧
        error.kind.IsLexical ∧
        error.position ≤ fault.position) ∧
    (∀ error, parse source = .error error → error.kind.IsLexical →
      error.DescribesFault source ∧
      ∃ before after tokens,
        source = before ++ error.token ++ after ∧
        before.utf8ByteSize = error.position ∧
        Token.ofSource before = .ok tokens) := by
  refine ⟨fun error refused => ⟨fun ended => ?_, standsAt_of_parse refused⟩,
    fun error => ofSource_eq_error_iff, ?_, fun error refused lexical => ?_⟩
  · rcases parse_eq_error_iff.mp refused with unscanned | ⟨tokens, _, stopped⟩
    · have lexical := (ofSource_eq_error_iff.mp unscanned).2
      rw [ended] at lexical
      exact lexical.elim
    · rcases Expr.exists_of_ofTokens_eq_error stopped with ⟨token, _, rfl⟩ | rfl
      · cases ended
      · exact ⟨rfl, rfl⟩
  · rintro fault ⟨before, after, rfl, size, isFault⟩
    obtain ⟨error, unscanned, earlier⟩ :=
      @Token.exists_error_of_fault 0 _ _ _ _ isFault
    have unscanned : Token.ofSource (before ++ fault.token ++ after) = .error error := by
      rwa [Token.ofSource, String.toList_append, String.toList_append, List.append_assoc]
    obtain ⟨refused, lexical⟩ := ofSource_eq_error_iff.mp unscanned
    refine ⟨error, refused, lexical, ?_⟩
    rwa [byteLength_toList, Nat.zero_add, size] at earlier
  · exact describesFault_of_ofSource (ofSource_eq_error_iff.mpr ⟨refused, lexical⟩)

/-- The first rule is refused for a number with a point, and neither for the misplaced operator in front
of it nor for the letter behind it; a misplaced parenthesis behind a wide space refuses the second rule,
and its end the third. -/
theorem errors_point_at_the_source_behind_wide_spaces :
    (∃ error before after tokens,
      parse "*\u3000x1 1.5 ü" = .error error ∧
      error.kind.IsLexical ∧
      error.position ≤ 11 ∧
      "*\u3000x1 1.5 ü" = before ++ error.token ++ after ∧
      before.utf8ByteSize = error.position ∧
      Token.ofSource before = .ok tokens) ∧
    StandsAt "x1\u3000* )" 7 ")" ∧
    ∃ error,
      parse "x1\u3000*" = .error error ∧
      error.token = "<end>" ∧
      error.position = 6 := by
  have letter : Rule.Error.DescribesFault
      { token := "ü", position := 11, kind := .disallowedOperator } "*\u3000x1 1.5 ü" :=
    ⟨"*\u3000x1 1.5 ", "", by decide +kernel, by decide +kernel,
      .symbol (by decide) (by decide) (by decide)⟩
  have misplaced : parse "x1\u3000* )" =
      .error { token := ")", position := 7, kind := .unexpectedToken } := by
    decide +kernel
  have ended : parse "x1\u3000*" =
      .error { token := "<end>", position := 6, kind := .unexpectedEnd } := by
    decide +kernel
  obtain ⟨-, -, faulty, leftmost⟩ := errors_point_at_the_source "*\u3000x1 1.5 ü"
  obtain ⟨error, refused, lexical, earlier⟩ := faulty _ letter
  obtain ⟨-, before, after, tokens, scanned⟩ := leftmost error refused lexical
  obtain ⟨shows, -⟩ := errors_point_at_the_source "x1\u3000* )"
  obtain ⟨ends, -⟩ := errors_point_at_the_source "x1\u3000*"
  exact ⟨⟨error, before, after, tokens, refused, lexical, earlier, scanned⟩,
    ((shows _ misplaced).2 (by decide)).2, _, ended, (ends _ ended).1 rfl⟩

end LearningRule

end Neurochip
