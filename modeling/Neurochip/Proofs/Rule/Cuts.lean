import Neurochip.Proofs.Rule.Scanned
import Neurochip.Proofs.Tally.Sums

namespace Neurochip

/-!
# Cutting a source in two

A source may be scanned in two parts if no word reaches across the place where
it is cut.  White space is scanned to nothing, wherever it stands, and the kinds
of the tokens do not depend on the byte at which a source starts.
-/

theorem byteLength_append (first second : List Char) :
    byteLength (first ++ second) = byteLength first + byteLength second :=
  tally_append _ first second

theorem byteLength_cons (first : Char) (rest : List Char) :
    byteLength (first :: rest) = first.utf8Size + byteLength rest :=
  tally_cons _ first rest

theorem byteLength_singleton (character : Char) : byteLength [character] = character.utf8Size :=
  byteLength_cons character []

/-- Of two ways to part the same characters, the one with fewer bytes in front comes first. -/
theorem exists_between
    {first second third fourth : List Char}
    (same : first ++ second = third ++ fourth)
    (shorter : byteLength first ≤ byteLength third) :
    ∃ between, third = first ++ between ∧ second = between ++ fourth := by
  rcases List.append_eq_append_iff.mp same with parted | ⟨beyond, rfl, rfl⟩
  · exact parted
  · cases beyond with
    | nil => exact ⟨[], by simp, rfl⟩
    | cons head beyond =>
        have positive := head.utf8Size_pos
        rw [byteLength_append, byteLength_cons] at shorter
        omega

/-- The bytes of a text are those of its characters. -/
theorem byteLength_toList (text : String) : byteLength text.toList = text.utf8ByteSize := by
  suffices same : ∀ characters, byteLength characters = (String.ofList characters).utf8ByteSize by
    rw [same, String.ofList_toList]
  intro characters
  induction characters with
  | nil => rfl
  | cons first rest inductionHypothesis =>
      have parted : String.ofList (first :: rest) = String.singleton first ++ String.ofList rest := by
        rw [String.singleton_eq_ofList, ← String.ofList_append, List.singleton_append]
      rw [byteLength_cons, inductionHypothesis, parted, String.utf8ByteSize_append,
        String.utf8ByteSize_singleton]

namespace Rule.Token

/-- The letters and digits that words have are those of ASCII. -/
theorem isAlphanum_eq (character : Char) :
    character.isAlphanum = (character.isUpper || character.isLower || character.isDigit) :=
  rfl

/-- The characters of words lie between the point and the letter z. -/
theorem between_of_wordChar {character : Char} (wordChar : isWordChar character = true) :
    46 ≤ character.toNat ∧ character.toNat ≤ 122 := by
  simp only [isWordChar, isAlphanum_eq, Bool.or_eq_true, beq_iff_eq] at wordChar
  rcases wordChar with ((((upper | lower) | digit) | rfl) | rfl)
  · obtain ⟨low, high⟩ := of_decide_eq_true upper
    exact ⟨Nat.le_trans (by decide) low, Nat.le_trans high (by decide)⟩
  · obtain ⟨low, high⟩ := Bool.and_eq_true_iff.mp lower
    exact ⟨Nat.le_trans (by decide) (of_decide_eq_true low),
      Nat.le_trans (of_decide_eq_true high) (by decide)⟩
  · obtain ⟨low, high⟩ := Bool.and_eq_true_iff.mp digit
    exact ⟨Nat.le_trans (by decide) (of_decide_eq_true low),
      Nat.le_trans (of_decide_eq_true high) (by decide)⟩
  · decide
  · decide

/-- White space is not part of words. -/
theorem isWordChar_of_blank {character : Char} (blank : isBlank character = true) :
    isWordChar character = false := by
  rw [Bool.eq_false_iff]
  intro wordChar
  obtain ⟨low, high⟩ := between_of_wordChar wordChar
  simp only [isBlank, CharRanges.covers, CharRanges.blank, List.any_cons, List.any_nil,
    Bool.or_eq_true, Bool.and_eq_true, decide_eq_true_eq, Bool.or_false] at blank
  omega

/-- No word reaches across the place between two parts of a source. -/
def CleanCut (before after : List Char) : Prop :=
  ∀ last next,
    before.getLast? = some last → after.head? = some next →
      isWordChar last = true → isWordChar next = false

theorem cleanCut_nil_left (after : List Char) : CleanCut [] after :=
  fun _ _ ends => by cases ends

/-- A cut in front of a character that no word has is clean. -/
theorem cleanCut_cons_of_false
    {next : Char}
    (apart : isWordChar next = false)
    (before after : List Char) :
    CleanCut before (next :: after) := by
  rintro last _ _ starts _
  obtain rfl := Option.some.inj starts
  exact apart

/-- A cut behind a character that no word has is clean. -/
theorem cleanCut_singleton_of_false
    {last : Char}
    (apart : isWordChar last = false)
    (after : List Char) :
    CleanCut [last] after := by
  intro last' next ends _ inWord
  rw [List.getLast?_singleton] at ends
  obtain rfl := Option.some.inj ends
  rw [apart] at inWord
  cases inWord

/-- A cut behind two parts is one behind the second of them. -/
theorem CleanCut.right
    {first second after : List Char}
    (clean : CleanCut (first ++ second) after) :
    CleanCut second after := by
  intro last next ends starts
  cases second with
  | nil => cases ends
  | cons head rest =>
      refine clean last next ?_ starts
      rwa [List.getLast?_append_of_ne_nil _ (List.cons_ne_nil head rest)]

theorem CleanCut.tail
    {first : Char}
    {rest after : List Char}
    (clean : CleanCut (first :: rest) after) :
    CleanCut rest after :=
  @CleanCut.right [first] rest after clean

/-- A cut in front of two parts is one in front of the first of them. -/
theorem CleanCut.left
    {before first second : List Char}
    (clean : CleanCut before (first ++ second)) :
    CleanCut before first := by
  intro last next ends starts
  cases first with
  | nil => cases starts
  | cons next first => exact clean last _ ends starts

/-- A cut behind the second of two parts stays one behind both of them. -/
theorem CleanCut.append
    {first second after : List Char}
    (clean : CleanCut first (second ++ after))
    (cleanSecond : CleanCut second after) :
    CleanCut (first ++ second) after := by
  intro last next ends starts
  cases second with
  | nil =>
      rw [List.append_nil] at ends
      exact clean last next ends starts
  | cons head rest =>
      rw [List.getLast?_append_of_ne_nil _ (List.cons_ne_nil head rest)] at ends
      exact cleanSecond last next ends starts

/-- A cut behind a longest word is clean. -/
theorem cleanCut_dropWhile (before rest : List Char) :
    CleanCut before (rest.dropWhile isWordChar) := by
  intro _ next _ starts _
  have apart := List.head?_dropWhile_not isWordChar rest
  rwa [starts] at apart

/-- A longest word is the same with and without what is behind a clean cut. -/
theorem takeWhile_append_of_cleanCut
    {first : Char}
    {rest after : List Char}
    (wordChar : isWordChar first = true)
    (clean : CleanCut (first :: rest) after) :
    (rest ++ after).takeWhile isWordChar = rest.takeWhile isWordChar ∧
    (rest ++ after).dropWhile isWordChar = rest.dropWhile isWordChar ++ after := by
  induction rest generalizing first with
  | nil =>
      cases after with
      | nil => exact ⟨rfl, rfl⟩
      | cons next after =>
          have apart := clean first next rfl rfl wordChar
          simp [apart]
  | cons second rest inductionHypothesis =>
      cases inWord : isWordChar second with
      | true => simpa [inWord] using inductionHypothesis inWord clean.tail
      | false => simp [inWord]

/-- A source is the longest word in front of it and what is behind this word. -/
theorem eq_word_append (first : Char) (rest : List Char) :
    first :: rest = (first :: rest.takeWhile isWordChar) ++ rest.dropWhile isWordChar :=
  congrArg (first :: ·) List.takeWhile_append_dropWhile.symm

/-- A source that is cut cleanly may be scanned in two parts. -/
theorem scan_append
    {before after : List Char}
    (clean : CleanCut before after)
    (position : Nat) :
    scan position (before ++ after) = do
      let first ← scan position before
      let second ← scan (position + byteLength before) after
      return first ++ second := by
  induction position, before using scan_induction with
  | nothing position =>
      rw [scan_nil]
      exact (bind_pure _).symm
  | blank position first rest blank inductionHypothesis =>
      rw [List.cons_append, scan_blank blank, scan_blank blank, inductionHypothesis clean.tail,
        byteLength_cons, Nat.add_assoc]
  | word position first rest notBlank wordChar inductionHypothesis =>
      obtain ⟨sameWord, sameRest⟩ := takeWhile_append_of_cleanCut wordChar clean
      have parts := eq_word_append first rest
      have cleanRest : CleanCut (rest.dropWhile isWordChar) after := by
        rw [parts] at clean
        exact clean.right
      have length : byteLength (first :: rest) =
          byteLength (first :: rest.takeWhile isWordChar) +
            byteLength (rest.dropWhile isWordChar) := by
        rw [← byteLength_append, ← parts]
      rw [List.cons_append, scan_word notBlank wordChar, scan_word notBlank wordChar, sameWord,
        sameRest, inductionHypothesis cleanRest, length, Nat.add_assoc]
      simp only [bind_assoc, pure_bind, List.cons_append]
  | symbol position first rest kind notBlank notWordChar known inductionHypothesis =>
      rw [List.cons_append, scan_symbol notBlank notWordChar known,
        scan_symbol notBlank notWordChar known, inductionHypothesis clean.tail, byteLength_cons,
        Nat.add_assoc]
      simp only [bind_assoc, pure_bind, List.cons_append]
  | unknown position first rest notBlank notWordChar unknown =>
      rw [List.cons_append, scan_unknown notBlank notWordChar unknown,
        scan_unknown notBlank notWordChar unknown]
      rfl

/-- White space in front of a source is skipped. -/
theorem scan_blanks
    {blanks : List Char}
    (blank : ∀ character ∈ blanks, isBlank character = true)
    (position : Nat)
    (after : List Char) :
    scan position (blanks ++ after) = scan (position + byteLength blanks) after := by
  induction blanks generalizing position with
  | nil => rfl
  | cons first rest inductionHypothesis =>
      obtain ⟨firstBlank, restBlank⟩ := List.forall_mem_cons.mp blank
      rw [List.cons_append, scan_blank firstBlank, inductionHypothesis restBlank, byteLength_cons,
        Nat.add_assoc]

/-- A word that is moved to another byte remains the same word. -/
theorem ofWord_moved
    {position : Nat}
    {first : Char}
    {word : List Char}
    {token : Token}
    (accepted : ofWord position first word = .ok token)
    (moved : Nat) :
    ofWord moved first word = .ok { token with position := moved } := by
  obtain ⟨_, text, means⟩ := ofWord_eq_ok_iff.mp accepted
  exact ofWord_eq_ok_iff.mpr ⟨rfl, text, means⟩

/-- A source that is moved to another byte has the same kinds of tokens. -/
theorem Scanned.exists_moved
    {position : Nat}
    {source : List Char}
    {tokens : List Token}
    (scanned : Scanned position source tokens)
    (moved : Nat) :
    ∃ others,
      scan moved source = .ok others ∧ others.map Token.kind = tokens.map Token.kind := by
  induction scanned generalizing moved with
  | nothing => exact ⟨[], scan_nil, rfl⟩
  | @blank position first rest tokens blank _ inductionHypothesis =>
      rw [scan_blank blank]
      exact inductionHypothesis _
  | @word position first rest token tokens notBlank wordChar isToken _ inductionHypothesis =>
      obtain ⟨others, scanned, same⟩ := inductionHypothesis
        (moved + byteLength (first :: rest.takeWhile isWordChar))
      refine ⟨{ token with position := moved } :: others, ?_, ?_⟩
      · rw [scan_word notBlank wordChar, ofWord_moved isToken moved, scanned]
        rfl
      · rw [List.map_cons, List.map_cons, same]
  | @symbol position first rest kind tokens notBlank notWordChar known _ inductionHypothesis =>
      obtain ⟨others, scanned, same⟩ := inductionHypothesis (moved + first.utf8Size)
      refine ⟨⟨kind, String.singleton first, moved⟩ :: others, ?_, ?_⟩
      · rw [scan_symbol notBlank notWordChar known, scanned]
        rfl
      · rw [List.map_cons, List.map_cons, same]

end Rule.Token

end Neurochip
