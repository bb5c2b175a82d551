import Mathlib.Data.Nat.Digits.Defs
import Neurochip.Proofs.Rule.Cuts

namespace Neurochip.Rule.Token

/-!
# Tokens cover their source

The tokens of a source stand one behind the other, each with its own piece of
the source as its text, and nothing but white space is left out.  A word is as
long as it can be.  The main statement adds that white space may be put anywhere
but into a token without changing what the tokens are.
-/

/-- The byte behind a token. -/
def stop (token : Token) : Nat :=
  token.position + token.text.utf8ByteSize

/-- A token that is a number or the name of a trace. -/
def IsWord (token : Token) : Prop :=
  match token.kind with
  | .number _ => True
  | .trace _ => True
  | _ => False

/-- A text of decimal digits with its value, a nonnegative word of 64 bits. -/
structure Denotes (text : String) (value : Nat) : Prop where
  nonempty : text ≠ ""
  digits : ∀ digit ∈ text.toList, digit.isDigit = true
  value_eq : value =
    Nat.ofDigits 10 (text.toList.map fun digit => digit.toNat - '0'.toNat).reverse
  value_le : value ≤ 9223372036854775807

/-- The text of a token says what the token is. -/
def Spelled (token : Token) : Prop :=
  match token.kind with
  | .number value => Denotes token.text value
  | .trace channel => token.text = channel.name
  | .plus => token.text = "+"
  | .minus => token.text = "-"
  | .star => token.text = "*"
  | .leftParen => token.text = "("
  | .rightParen => token.text = ")"

/-- Decimal digits have the value of their number, the last digit counting least. -/
theorem decimalValue_eq_ofDigits (digits : List Char) :
    decimalValue digits =
      Nat.ofDigits 10 (digits.map fun digit => digit.toNat - '0'.toNat).reverse := by
  rw [Nat.ofDigits_eq_foldr, List.foldr_reverse, List.foldl_map, decimalValue]
  simp only [Nat.cast_id, Nat.add_comm]

theorem denotes_of_number?
    {word : List Char}
    (nonempty : word ≠ [])
    {value : Nat}
    (found : number? word = some value) :
    Denotes (String.ofList word) value := by
  obtain ⟨⟨digits, small⟩, same⟩ := Option.ite_none_right_eq_some.mp found
  obtain rfl := Option.some.inj same
  refine ⟨?_, ?_, ?_, Nat.le_of_lt_succ small⟩
  · intro empty
    exact nonempty (String.ofList_injective empty)
  · rw [String.toList_ofList]
    exact List.all_eq_true.mp digits
  · rw [String.toList_ofList]
    exact decimalValue_eq_ofDigits word

theorem name_of_ofName?
    {name : String}
    {channel : Channel}
    (found : Channel.ofName? name = some channel) :
    channel.name = name := by
  have named := List.find?_some found
  exact beq_iff_eq.mp named

/-- A token that is made of a word has the word as its text, which says what the token is. -/
theorem text_spelled_of_ofWord
    {position : Nat}
    {first : Char}
    {word : List Char}
    {token : Token}
    (nonempty : word ≠ [])
    (accepted : ofWord position first word = .ok token) :
    token.text = String.ofList word ∧ token.Spelled := by
  obtain ⟨_, text, ⟨_, value, found, kind⟩ | ⟨_, channel, found, kind⟩⟩ :=
    ofWord_eq_ok_iff.mp accepted
  · refine ⟨text, ?_⟩
    rw [Spelled, kind, text]
    exact denotes_of_number? nonempty found
  · refine ⟨text, ?_⟩
    rw [Spelled, kind, text]
    exact (name_of_ofName? found).symm

theorem spelled_of_ofSymbol
    {character : Char}
    {kind : TokenKind}
    (known : ofSymbol? character = some kind)
    (position : Nat) :
    Spelled ⟨kind, String.singleton character, position⟩ := by
  unfold ofSymbol? at known
  split at known <;> cases known <;> rfl

/-- A token at the start of a source, in front of the rest of it. -/
structure Begins (token : Token) (position : Nat) (rest : List Char) : Prop where
  position_eq : token.position = position
  nonempty : token.text.toList ≠ []
  spelled : token.Spelled
  clean : CleanCut token.text.toList rest

/-- A source that starts at the given byte is white space and tokens, one behind the other. -/
inductive Pieces : Nat → List Char → List Token → Prop where
  | nothing {position : Nat} :
      Pieces position [] []
  | blank
      {position : Nat}
      {first : Char}
      {rest : List Char}
      {tokens : List Token} :
      isBlank first = true →
      Pieces (position + first.utf8Size) rest tokens →
      Pieces position (first :: rest) tokens
  | token
      {position : Nat}
      {rest : List Char}
      {token : Token}
      {tokens : List Token} :
      token.Begins position rest →
      (∀ other ∈ tokens, token.stop ≤ other.position) →
      Pieces token.stop rest tokens →
      Pieces position (token.text.toList ++ rest) (token :: tokens)

/-- Words and symbols alike are tokens at the start of what is left of their source. -/
theorem Scanned.pieces
    {position : Nat}
    {source : List Char}
    {tokens : List Token}
    (scanned : Scanned position source tokens) :
    Pieces position source tokens := by
  induction scanned with
  | nothing => exact .nothing
  | blank blank _ inductionHypothesis => exact .blank blank inductionHypothesis
  | @word position first rest word tokens _ wordChar isToken later inductionHypothesis =>
      obtain ⟨text, spelled⟩ := text_spelled_of_ofWord (List.cons_ne_nil _ _) isToken
      have characters : word.text.toList = first :: rest.takeWhile isWordChar := by
        rw [text, String.toList_ofList]
      have begins : word.Begins position (rest.dropWhile isWordChar) :=
        { position_eq := position_of_ofWord isToken
          nonempty := by simp [characters]
          spelled := spelled
          clean := cleanCut_dropWhile _ rest }
      have stop_eq : position + byteLength (first :: rest.takeWhile isWordChar) = word.stop := by
        rw [stop, begins.position_eq, ← byteLength_toList, characters]
      rw [stop_eq] at later inductionHypothesis
      have joined := Pieces.token begins later.start_le inductionHypothesis
      rwa [characters, ← eq_word_append] at joined
  | @symbol position first rest kind tokens _ notWordChar known later inductionHypothesis =>
      have begins : Begins ⟨kind, String.singleton first, position⟩ position rest :=
        { position_eq := rfl
          nonempty := by simp
          spelled := spelled_of_ofSymbol known position
          clean := by
            rw [String.toList_singleton]
            exact cleanCut_singleton_of_false notWordChar rest }
      have stop_eq : position + first.utf8Size =
          stop ⟨kind, String.singleton first, position⟩ := by
        rw [stop, String.utf8ByteSize_singleton]
      rw [stop_eq] at later inductionHypothesis
      have joined := Pieces.token begins later.start_le inductionHypothesis
      rwa [String.toList_singleton] at joined

/-- A token ends before or where the next one starts. -/
theorem Pieces.pairwise_stop_le
    {position : Nat}
    {source : List Char}
    {tokens : List Token}
    (pieces : Pieces position source tokens) :
    tokens.Pairwise fun first second => first.stop ≤ second.position := by
  induction pieces with
  | nothing => exact .nil
  | blank _ _ inductionHypothesis => exact inductionHypothesis
  | token _ later _ inductionHypothesis => exact .cons later inductionHypothesis

/-- Every token begins at its own place in the source, and no word reaches across this place. -/
theorem Pieces.exists_begins
    {position : Nat}
    {source : List Char}
    {tokens : List Token}
    (pieces : Pieces position source tokens) :
    ∀ token ∈ tokens, ∃ before after,
      source = before ++ (token.text.toList ++ after) ∧
      token.Begins (position + byteLength before) after ∧
      CleanCut before (token.text.toList ++ after) := by
  induction pieces with
  | nothing => simp
  | @blank position first rest tokens blank _ inductionHypothesis =>
      intro token member
      obtain ⟨before, after, rfl, begins, clean⟩ := inductionHypothesis token member
      rw [Nat.add_assoc, ← byteLength_cons] at begins
      have behindBlank := cleanCut_singleton_of_false (isWordChar_of_blank blank)
      exact ⟨first :: before, after, rfl, begins, (behindBlank _).append clean⟩
  | @token position rest token tokens begins _ _ inductionHypothesis =>
      refine List.forall_mem_cons.mpr ⟨⟨[], rest, rfl, begins, cleanCut_nil_left _⟩, ?_⟩
      intro other member
      obtain ⟨before, after, rfl, otherBegins, clean⟩ := inductionHypothesis other member
      refine ⟨token.text.toList ++ before, after, by simp, ?_, begins.clean.append clean⟩
      rwa [stop, begins.position_eq, ← byteLength_toList, Nat.add_assoc,
        ← byteLength_append] at otherBegins

/-- A character that is not white space belongs to a token. -/
theorem Pieces.blank_of_outside
    {position : Nat}
    {source : List Char}
    {tokens : List Token}
    (pieces : Pieces position source tokens) :
    ∀ before character after,
      source = before ++ character :: after →
      (∀ token ∈ tokens,
        ¬ (token.position ≤ position + byteLength before ∧
          position + byteLength before < token.stop)) →
        isBlank character = true := by
  induction pieces with
  | nothing => simp
  | @blank position first rest tokens blank _ inductionHypothesis =>
      intro before character after parts outside
      cases before with
      | nil =>
          obtain rfl := (List.cons.inj parts).1
          exact blank
      | cons head before =>
          obtain ⟨rfl, rfl⟩ := List.cons.inj parts
          rw [byteLength_cons, ← Nat.add_assoc] at outside
          exact inductionHypothesis before character after rfl outside
  | @token position rest token tokens begins _ _ inductionHypothesis =>
      intro before character after parts outside
      obtain ⟨notHere, outside⟩ := List.forall_mem_cons.mp outside
      have stop_eq : token.stop = position + byteLength token.text.toList := by
        rw [stop, begins.position_eq, byteLength_toList]
      have behind : byteLength token.text.toList ≤ byteLength before := by
        have := begins.position_eq
        omega
      obtain ⟨between, rfl, rfl⟩ := exists_between parts behind
      rw [byteLength_append, ← Nat.add_assoc, ← stop_eq] at outside
      exact inductionHypothesis between character after rfl outside

/-- A place that is not inside a token is a clean cut. -/
theorem Pieces.cleanCut_of_outside
    {position : Nat}
    {source : List Char}
    {tokens : List Token}
    (pieces : Pieces position source tokens) :
    ∀ before after,
      source = before ++ after →
      (∀ token ∈ tokens,
        ¬ (token.position < position + byteLength before ∧
          position + byteLength before < token.stop)) →
        CleanCut before after := by
  induction pieces with
  | nothing =>
      intro before after parts _
      obtain ⟨rfl, rfl⟩ := List.append_eq_nil_iff.mp parts.symm
      exact cleanCut_nil_left []
  | @blank position first rest tokens blank _ inductionHypothesis =>
      intro before after parts outside
      cases before with
      | nil => exact cleanCut_nil_left after
      | cons head before =>
          obtain ⟨rfl, rfl⟩ := List.cons.inj parts
          rw [byteLength_cons, ← Nat.add_assoc] at outside
          have behindBlank := cleanCut_singleton_of_false (isWordChar_of_blank blank)
          exact (behindBlank _).append (inductionHypothesis before after rfl outside)
  | @token position rest token tokens begins _ _ inductionHypothesis =>
      intro before after parts outside
      obtain ⟨notHere, outside⟩ := List.forall_mem_cons.mp outside
      have stop_eq : token.stop = position + byteLength token.text.toList := by
        rw [stop, begins.position_eq, byteLength_toList]
      cases before with
      | nil => exact cleanCut_nil_left after
      | cons head before =>
          have behind : byteLength token.text.toList ≤ byteLength (head :: before) := by
            have := begins.position_eq
            have := head.utf8Size_pos
            rw [byteLength_cons] at notHere ⊢
            omega
          obtain ⟨between, same, rfl⟩ := exists_between parts behind
          rw [same] at outside ⊢
          rw [byteLength_append, ← Nat.add_assoc, ← stop_eq] at outside
          exact begins.clean.append (inductionHypothesis between after rfl outside)

/-- White space may be put into a source anywhere but into a token. -/
theorem exists_scan_with_blanks
    {position : Nat}
    {before blanks after : List Char}
    {tokens : List Token}
    (accepted : scan position (before ++ after) = .ok tokens)
    (blank : ∀ character ∈ blanks, isBlank character = true)
    (clean : CleanCut before after) :
    ∃ others,
      scan position (before ++ (blanks ++ after)) = .ok others ∧
      others.map Token.kind = tokens.map Token.kind := by
  rw [scan_append clean] at accepted
  obtain ⟨first, scannedFirst, accepted⟩ := bind_eq_ok_iff.mp accepted
  obtain ⟨second, scannedSecond, accepted⟩ := bind_eq_ok_iff.mp accepted
  obtain rfl := pure_eq_ok_iff.mp accepted
  obtain ⟨moved, scannedMoved, same⟩ :=
    (scanned_of_scan scannedSecond).exists_moved (position + byteLength before + byteLength blanks)
  have cleanBlanks : CleanCut before (blanks ++ after) := by
    cases blanks with
    | nil => exact clean
    | cons head rest =>
        exact cleanCut_cons_of_false (isWordChar_of_blank (blank head List.mem_cons_self)) _ _
  refine ⟨first ++ moved, ?_, by simp [same]⟩
  rw [scan_append cleanBlanks, scan_blanks blank, scannedFirst, scannedMoved]
  rfl

theorem Spelled.text_ne_empty {token : Token} (spelled : token.Spelled) : token.text ≠ "" := by
  obtain ⟨kind, text, position⟩ := token
  cases kind with
  | number value => exact spelled.nonempty
  | trace channel =>
      obtain rfl : text = channel.name := spelled
      show channel.name ≠ ""
      cases channel <;> decide
  | plus | minus | star | leftParen | rightParen =>
      intro empty
      exact absurd (Eq.trans empty.symm spelled) (by decide)

/-- The text of a number or of the name of a trace has no other characters than words do. -/
theorem Spelled.isWordChar
    {token : Token}
    (spelled : token.Spelled)
    (isWord : token.IsWord) :
    ∀ character ∈ token.text.toList, Token.isWordChar character = true := by
  obtain ⟨kind, text, position⟩ := token
  cases kind with
  | number value =>
      intro character member
      have digit := spelled.digits character member
      simp [Token.isWordChar, isAlphanum_eq, digit]
  | trace channel =>
      obtain rfl : text = channel.name := spelled
      have name : channel.name.toList.all Token.isWordChar = true := by
        cases channel <;> decide
      exact List.all_eq_true.mp name
  | plus | minus | star | leftParen | rightParen => exact isWord.elim

/-- A word is as long as it can be: no character of words stands in front of it or behind it. -/
theorem Begins.apart
    {token : Token}
    {position : Nat}
    {before after : List Char}
    (begins : token.Begins position after)
    (clean : CleanCut before (token.text.toList ++ after))
    (isWord : token.IsWord) :
    (∀ last, before.getLast? = some last → isWordChar last = false) ∧
    (∀ next, after.head? = some next → isWordChar next = false) := by
  have inWord := begins.spelled.isWordChar isWord
  constructor
  · intro last ends
    obtain ⟨head, rest, text⟩ := List.exists_cons_of_ne_nil begins.nonempty
    rw [text] at clean inWord
    have headInWord := inWord head List.mem_cons_self
    rw [Bool.eq_false_iff]
    intro lastInWord
    rw [clean last head ends rfl lastInWord] at headInWord
    cases headInWord
  · intro next starts
    have ends := List.getLast?_eq_some_getLast begins.nonempty
    exact begins.clean _ next ends starts (inWord _ (List.getLast_mem begins.nonempty))

/-- The tokens of a source, with what they leave out of it. -/
structure Lossless (source : String) (tokens : List Token) : Prop where
  /-- Tokens stand one behind the other. -/
  ordered : tokens.Pairwise fun first second =>
    first.position < second.position ∧ first.stop ≤ second.position
  /-- The text of a token stands in the source where the token does, and no word could be longer. -/
  slices : ∀ token ∈ tokens, ∃ before after,
    source = before ++ token.text ++ after ∧
    before.utf8ByteSize = token.position ∧
    (token.IsWord →
      (∀ last, before.toList.getLast? = some last → isWordChar last = false) ∧
      (∀ next, after.toList.head? = some next → isWordChar next = false))
  /-- A character that stands in no token is white space. -/
  blankOutside : ∀ before character after,
    source = before ++ String.singleton character ++ after →
    (∀ token ∈ tokens,
      ¬ (token.position ≤ before.utf8ByteSize ∧ before.utf8ByteSize < token.stop)) →
      isBlank character = true
  /-- The text of a token says what the token is. -/
  spelled : ∀ token ∈ tokens, token.Spelled

theorem lossless_of_ofSource
    {source : String}
    {tokens : List Token}
    (accepted : ofSource source = .ok tokens) :
    Lossless source tokens := by
  have scanned := scanned_of_scan accepted
  refine ⟨?_, fun token member => ?_, fun before character after parts outside => ?_,
    fun token member => ?_⟩
  · exact scanned.pairwise_position_lt.and scanned.pieces.pairwise_stop_le
  · obtain ⟨before, after, parts, begins, clean⟩ := scanned.pieces.exists_begins token member
    refine ⟨String.ofList before, String.ofList after, ?_, ?_, ?_⟩
    · apply String.toList_injective
      simp [parts]
    · rw [begins.position_eq, ← byteLength_toList, String.toList_ofList, Nat.zero_add]
    · rw [String.toList_ofList, String.toList_ofList]
      exact begins.apart clean
  · refine scanned.pieces.blank_of_outside before.toList character after.toList ?_ ?_
    · simp [parts]
    · rw [byteLength_toList, Nat.zero_add]
      exact outside
  · obtain ⟨before, after, _, begins, _⟩ := scanned.pieces.exists_begins token member
    exact begins.spelled

/-- The tokens of a source stand in it one behind the other, words are as long as they can be, and
nothing but white space is left out.  Their kinds stay the same when white space is put anywhere but
into a token. -/
theorem tokens_are_lossless_and_maximal
    {source : String}
    {tokens : List Token}
    (accepted : ofSource source = .ok tokens) :
    Lossless source tokens ∧
    ∀ before blanks after : String,
      source = before ++ after →
      (∀ character ∈ blanks.toList, isBlank character = true) →
      (∀ token ∈ tokens,
        ¬ (token.position < before.utf8ByteSize ∧ before.utf8ByteSize < token.stop)) →
        ∃ others,
          ofSource (before ++ blanks ++ after) = .ok others ∧
          others.map Token.kind = tokens.map Token.kind := by
  refine ⟨lossless_of_ofSource accepted, ?_⟩
  rintro before blanks after rfl blank outside
  have scanned := scanned_of_scan accepted
  have clean : CleanCut before.toList after.toList := by
    refine scanned.pieces.cleanCut_of_outside _ _ String.toList_append ?_
    rw [byteLength_toList, Nat.zero_add]
    exact outside
  rw [ofSource, String.toList_append] at accepted
  obtain ⟨others, scannedOthers, same⟩ := exists_scan_with_blanks accepted blank clean
  refine ⟨others, ?_, same⟩
  rw [ofSource, String.toList_append, String.toList_append, List.append_assoc]
  exact scannedOthers

/-- A product behind a wide space is cut into its words and its symbol, and a line break in front of the
symbol changes nothing. -/
theorem tokens_are_lossless_and_maximal_wide_space :
    ∃ tokens,
      ofSource "x1\u3000*007" = .ok tokens ∧
      Lossless "x1\u3000*007" tokens ∧
      ∃ others,
        ofSource ("x1\u3000" ++ "\n" ++ "*007") = .ok others ∧
        others.map Token.kind = [.trace .x1, .star, .number 7] := by
  have accepted : ofSource "x1\u3000*007" =
      .ok [⟨.trace .x1, "x1", 0⟩, ⟨.star, "*", 5⟩, ⟨.number 7, "007", 6⟩] := by
    decide +kernel
  obtain ⟨lossless, spaced⟩ := tokens_are_lossless_and_maximal accepted
  have lineBreak : "\n".toList.all isBlank = true := by
    decide +kernel
  exact ⟨_, accepted, lossless, spaced "x1\u3000" "\n" "*007" (by decide +kernel)
    (List.all_eq_true.mp lineBreak) (by decide +kernel)⟩

end Neurochip.Rule.Token
