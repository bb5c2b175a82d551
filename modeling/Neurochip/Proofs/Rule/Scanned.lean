import Neurochip.Proofs.Error.Acceptance
import Neurochip.Rule.Token

namespace Neurochip.Rule.Token

/-!
# The order of the tokens of a source

A source that is cut into tokens is a sequence of white space, words and symbols,
each of which begins where the one before it ends.  The scanner has one equation
for each of these, and proofs about it follow `scan_induction`.  The main
statement says that every token starts at a later byte than those before it, so
that a token can be told by the byte at which it starts.
-/

/-- A source that starts at the given byte, cut into tokens. -/
inductive Scanned : Nat → List Char → List Token → Prop where
  | nothing {position : Nat} :
      Scanned position [] []
  | blank
      {position : Nat}
      {first : Char}
      {rest : List Char}
      {tokens : List Token} :
      isBlank first = true →
      Scanned (position + first.utf8Size) rest tokens →
      Scanned position (first :: rest) tokens
  | word
      {position : Nat}
      {first : Char}
      {rest : List Char}
      {token : Token}
      {tokens : List Token} :
      isBlank first = false →
      isWordChar first = true →
      ofWord position first (first :: rest.takeWhile isWordChar) = .ok token →
      Scanned (position + byteLength (first :: rest.takeWhile isWordChar))
        (rest.dropWhile isWordChar) tokens →
      Scanned position (first :: rest) (token :: tokens)
  | symbol
      {position : Nat}
      {first : Char}
      {rest : List Char}
      {kind : TokenKind}
      {tokens : List Token} :
      isBlank first = false →
      isWordChar first = false →
      ofSymbol? first = some kind →
      Scanned (position + first.utf8Size) rest tokens →
      Scanned position (first :: rest) (⟨kind, String.singleton first, position⟩ :: tokens)

section Scanning

variable {position : Nat} {first : Char} {rest : List Char}

theorem scan_nil : scan position [] = .ok [] := by
  rw [scan]

theorem scan_blank (blank : isBlank first = true) :
    scan position (first :: rest) = scan (position + first.utf8Size) rest := by
  rw [scan, if_pos blank]

theorem scan_word
    (notBlank : isBlank first = false)
    (wordChar : isWordChar first = true) :
    scan position (first :: rest) = do
      let token ← ofWord position first (first :: rest.takeWhile isWordChar)
      let tokens ←
        scan (position + byteLength (first :: rest.takeWhile isWordChar))
          (rest.dropWhile isWordChar)
      return token :: tokens := by
  rw [scan, if_neg (by simp [notBlank]), if_pos wordChar]

theorem scan_symbol
    (notBlank : isBlank first = false)
    (notWordChar : isWordChar first = false)
    {kind : TokenKind}
    (known : ofSymbol? first = some kind) :
    scan position (first :: rest) = do
      let tokens ← scan (position + first.utf8Size) rest
      return ⟨kind, String.singleton first, position⟩ :: tokens := by
  rw [scan, if_neg (by simp [notBlank]), if_neg (by simp [notWordChar])]
  simp only [known]

theorem scan_unknown
    (notBlank : isBlank first = false)
    (notWordChar : isWordChar first = false)
    (unknown : ofSymbol? first = none) :
    scan position (first :: rest) =
      .error ⟨String.singleton first, position, .disallowedOperator⟩ := by
  rw [scan, if_neg (by simp [notBlank]), if_neg (by simp [notWordChar])]
  simp only [unknown]

end Scanning

/-- Induction along a source as it is scanned, by what stands first in it. -/
@[elab_as_elim]
theorem scan_induction
    {motive : Nat → List Char → Prop}
    (nothing : ∀ position, motive position [])
    (blank : ∀ position first rest,
      isBlank first = true →
      motive (position + first.utf8Size) rest →
        motive position (first :: rest))
    (word : ∀ position first rest,
      isBlank first = false →
      isWordChar first = true →
      motive (position + byteLength (first :: rest.takeWhile isWordChar))
        (rest.dropWhile isWordChar) →
        motive position (first :: rest))
    (symbol : ∀ position first rest kind,
      isBlank first = false →
      isWordChar first = false →
      ofSymbol? first = some kind →
      motive (position + first.utf8Size) rest →
        motive position (first :: rest))
    (unknown : ∀ position first rest,
      isBlank first = false →
      isWordChar first = false →
      ofSymbol? first = none →
        motive position (first :: rest))
    (position : Nat)
    (source : List Char) :
    motive position source := by
  induction position, source using scan.induct with
  | case1 position => exact nothing position
  | case2 position first rest isBlank later => exact blank position first rest isBlank later
  | case3 position first rest notBlank wordChar text later =>
      exact word position first rest (Bool.eq_false_iff.mpr notBlank) wordChar later
  | case4 position first rest notBlank notWordChar none =>
      exact unknown position first rest (Bool.eq_false_iff.mpr notBlank)
        (Bool.eq_false_iff.mpr notWordChar) none
  | case5 position first rest notBlank notWordChar kind known later =>
      exact symbol position first rest kind (Bool.eq_false_iff.mpr notBlank)
        (Bool.eq_false_iff.mpr notWordChar) known later

/-- Tokens that are answered for a source cut it. -/
theorem scanned_of_scan
    {position : Nat}
    {source : List Char}
    {tokens : List Token}
    (accepted : scan position source = .ok tokens) :
    Scanned position source tokens := by
  induction position, source using scan_induction generalizing tokens with
  | nothing position =>
      rw [scan_nil] at accepted
      obtain rfl := Except.ok.inj accepted
      exact .nothing
  | blank position first rest blank inductionHypothesis =>
      rw [scan_blank blank] at accepted
      exact .blank blank (inductionHypothesis accepted)
  | word position first rest notBlank wordChar inductionHypothesis =>
      rw [scan_word notBlank wordChar] at accepted
      obtain ⟨token, isToken, accepted⟩ := bind_eq_ok_iff.mp accepted
      obtain ⟨others, scanned, accepted⟩ := bind_eq_ok_iff.mp accepted
      obtain rfl := pure_eq_ok_iff.mp accepted
      exact .word notBlank wordChar isToken (inductionHypothesis scanned)
  | symbol position first rest kind notBlank notWordChar known inductionHypothesis =>
      rw [scan_symbol notBlank notWordChar known] at accepted
      obtain ⟨others, scanned, accepted⟩ := bind_eq_ok_iff.mp accepted
      obtain rfl := pure_eq_ok_iff.mp accepted
      exact .symbol notBlank notWordChar known (inductionHypothesis scanned)
  | unknown position first rest notBlank notWordChar unknown =>
      rw [scan_unknown notBlank notWordChar unknown] at accepted
      cases accepted

/-- A word becomes a token with the word as its text: a number if it starts like one, or the name of a
trace. -/
theorem ofWord_eq_ok_iff
    {position : Nat}
    {first : Char}
    {word : List Char}
    {token : Token} :
    ofWord position first word = .ok token ↔
      token.position = position ∧
      token.text = String.ofList word ∧
      (startsNumber first = true ∧
          (∃ value, number? word = some value ∧ token.kind = .number value) ∨
        startsNumber first = false ∧
          ∃ channel,
            Channel.ofName? (String.ofList word) = some channel ∧ token.kind = .trace channel) := by
  obtain ⟨kind, text, place⟩ := token
  unfold ofWord
  dsimp only
  split
  · rename_i starts
    split
    · rename_i value found
      simp [starts, found, eq_comm, and_comm, and_assoc]
    · rename_i unknown
      simp [starts, unknown]
  · rename_i starts
    split
    · rename_i channel found
      simp [starts, found, eq_comm, and_comm, and_assoc]
    · rename_i unknown
      simp [starts, unknown]

/-- A word starts where its token says. -/
theorem position_of_ofWord
    {position : Nat}
    {first : Char}
    {word : List Char}
    {token : Token}
    (accepted : ofWord position first word = .ok token) :
    token.position = position :=
  (ofWord_eq_ok_iff.mp accepted).1

/-- No token starts before its source does. -/
theorem Scanned.start_le
    {position : Nat}
    {source : List Char}
    {tokens : List Token}
    (scanned : Scanned position source tokens) :
    ∀ token ∈ tokens, position ≤ token.position := by
  induction scanned with
  | nothing => simp
  | blank _ _ inductionHypothesis =>
      intro token member
      exact Nat.le_trans (Nat.le_add_right _ _) (inductionHypothesis token member)
  | word _ _ isToken _ inductionHypothesis =>
      refine List.forall_mem_cons.mpr ⟨Nat.le_of_eq (position_of_ofWord isToken).symm, fun token member => ?_⟩
      exact Nat.le_trans (Nat.le_add_right _ _) (inductionHypothesis token member)
  | symbol _ _ _ _ inductionHypothesis =>
      refine List.forall_mem_cons.mpr ⟨Nat.le_refl _, fun token member => ?_⟩
      exact Nat.le_trans (Nat.le_add_right _ _) (inductionHypothesis token member)

/-- Every token starts at a later byte than those before it. -/
theorem Scanned.pairwise_position_lt
    {position : Nat}
    {source : List Char}
    {tokens : List Token}
    (scanned : Scanned position source tokens) :
    tokens.Pairwise fun first second => first.position < second.position := by
  induction scanned with
  | nothing => exact .nil
  | blank _ _ inductionHypothesis => exact inductionHypothesis
  | @word position first rest token tokens _ _ isToken later inductionHypothesis =>
      refine .cons (fun other member => ?_) inductionHypothesis
      have taken : 0 < byteLength (first :: rest.takeWhile isWordChar) := by
        rw [byteLength, tally_cons]
        exact Nat.add_pos_left first.utf8Size_pos _
      rw [position_of_ofWord isToken]
      exact Nat.lt_of_lt_of_le (Nat.lt_add_of_pos_right taken) (later.start_le other member)
  | @symbol position first rest kind tokens _ _ _ later inductionHypothesis =>
      refine .cons (fun other member => ?_) inductionHypothesis
      exact Nat.lt_of_lt_of_le (Nat.lt_add_of_pos_right first.utf8Size_pos)
        (later.start_le other member)

/-- A token of a source is told by the byte at which it starts. -/
theorem Scanned.index_eq
    {position : Nat}
    {source : List Char}
    {tokens : List Token}
    (scanned : Scanned position source tokens)
    {first second : Nat}
    {token other : Token}
    (firstPlace : tokens[first]? = some token)
    (secondPlace : tokens[second]? = some other)
    (same : token.position = other.position) :
    first = second := by
  have later := List.pairwise_iff_getElem.mp scanned.pairwise_position_lt
  obtain ⟨firstInside, rfl⟩ := List.getElem?_eq_some_iff.mp firstPlace
  obtain ⟨secondInside, rfl⟩ := List.getElem?_eq_some_iff.mp secondPlace
  rcases Nat.lt_trichotomy first second with before | equal | after
  · exact absurd same (Nat.ne_of_lt (later first second firstInside secondInside before))
  · exact equal
  · exact absurd same.symm (Nat.ne_of_lt (later second first secondInside firstInside after))

end Neurochip.Rule.Token
