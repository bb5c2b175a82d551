import Neurochip.Proofs.Error.Acceptance
import Neurochip.Proofs.Random.Draws

namespace Neurochip

/-!
# Computations that may fail

A machine has no answer where a list has nothing at a position, where it would
divide by zero or draw from an empty range, and where a result is no word of the
size at hand.  Guarded computations are written with all such places in them.
The lemmas carry the statement that a guarded computation does not fail, and
answers what the unguarded one does, through sequences and lists of computations.
-/

theorem Bounds.contains_int32_iff {value : Int} :
    int32.Contains value ↔ -2147483648 ≤ value ∧ value ≤ 2147483647 :=
  Iff.rfl

theorem Bounds.contains_int64_iff {value : Int} :
    int64.Contains value ↔ -9223372036854775808 ≤ value ∧ value ≤ 9223372036854775807 :=
  Iff.rfl

/-- Why a computation has no answer. -/
inductive Failure where
  | noSuchPosition
  | outOfReach
  | divisionByZero
  | emptyRange
  | differentLengths
  | overflow
  deriving Repr, DecidableEq

namespace Guard

/-- The item at a position. -/
def itemAt (items : List α) (position : Nat) : Except Failure α :=
  match items[position]? with
  | none => .error .noSuchPosition
  | some item => .ok item

/-- The element at a position. -/
def elementAt (elements : Array α) (position : Nat) : Except Failure α :=
  match elements[position]? with
  | none => .error .noSuchPosition
  | some element => .ok element

/-- Items that are copied over as many others. -/
def copied (overwritten items : List α) : Except Failure (List α) :=
  if overwritten.length = items.length then .ok items else .error .differentLengths

/-- The first items of a list, and the others; there have to be enough. -/
def splitAt (count : Nat) (items : List α) : Except Failure (List α × List α) :=
  if count ≤ items.length then
    .ok (items.take count, items.drop count)
  else
    .error .noSuchPosition

/-- A result that has to be a word. -/
def word (words : Bounds) (value : Int) : Except Failure Int :=
  if words.Contains value then .ok value else .error .overflow

/-- A division that has to answer a word. -/
def divided
    (words : Bounds)
    (divide : Int → Int → Int)
    (numerator denominator : Int) :
    Except Failure Int :=
  if denominator = 0 then
    .error .divisionByZero
  else
    word words (divide numerator denominator)

/-- The remainder of a division, which is less than the divisor. -/
def remainder (numerator denominator : Int) : Except Failure Int :=
  if denominator = 0 then .error .divisionByZero else .ok (numerator % denominator)

/-- A quotient or remainder of natural numbers. -/
def dividedNat (divide : Nat → Nat → Nat) (numerator denominator : Nat) : Except Failure Nat :=
  if denominator = 0 then .error .divisionByZero else .ok (divide numerator denominator)

/-- A shift to the left by less than the size of a word that loses no bit. -/
def shiftedLeft (words : Bounds) (size value shift : Int) : Except Failure Int :=
  if 0 ≤ shift ∧ shift < size then
    word words (value * (1 <<< shift.toNat : Nat))
  else
    .error .overflow

/-- A shift to the right by less than the size of a word. -/
def shiftedRight (size value shift : Int) : Except Failure Int :=
  if 0 ≤ shift ∧ shift < size then .ok (value >>> shift.toNat) else .error .overflow

theorem itemAt_of_some
    {items : List α}
    {position : Nat}
    {item : α}
    (found : items[position]? = some item) :
    itemAt items position = .ok item := by
  rw [itemAt, found]

theorem elementAt_of_some
    {elements : Array α}
    {position : Nat}
    {element : α}
    (found : elements[position]? = some element) :
    elementAt elements position = .ok element := by
  rw [elementAt, found]

theorem exists_element
    {elements : Array α}
    {position : Nat}
    (inside : position < elements.size) :
    ∃ element, elements[position]? = some element :=
  ⟨_, Array.getElem?_eq_getElem inside⟩

/-- Writing what a function makes of an element is modifying it by the function. -/
theorem setIfInBounds_eq_modify
    {elements : Array α}
    {position : Nat}
    {element : α}
    (found : elements[position]? = some element)
    (change : α → α) :
    elements.setIfInBounds position (change element) = elements.modify position change := by
  apply Array.ext_getElem?
  intro other
  rw [Array.getElem?_setIfInBounds, Array.getElem?_modify]
  by_cases same : position = other
  · subst same
    obtain ⟨inside, rfl⟩ := Array.getElem?_eq_some_iff.mp found
    simp [inside]
  · simp [same]

/-- Writing what a function makes of an item is modifying it by the function. -/
theorem set_eq_modify
    {items : List α}
    {position : Nat}
    {item : α}
    (found : items[position]? = some item)
    (change : α → α) :
    items.set position (change item) = items.modify position change := by
  apply List.ext_getElem?
  intro other
  rw [List.getElem?_set, List.getElem?_modify]
  by_cases same : position = other
  · subst same
    obtain ⟨inside, rfl⟩ := List.getElem?_eq_some_iff.mp found
    simp [inside]
  · simp [same]

theorem splitAt_of_le
    {count : Nat}
    {items : List α}
    (enough : count ≤ items.length) :
    splitAt count items = .ok (items.take count, items.drop count) :=
  if_pos enough

theorem word_of_contains
    {words : Bounds}
    {value : Int}
    (contained : words.Contains value) :
    word words value = .ok value :=
  if_pos contained

theorem divided_of_contains
    {words : Bounds}
    {divide : Int → Int → Int}
    {numerator denominator : Int}
    (nonzero : denominator ≠ 0)
    (contained : words.Contains (divide numerator denominator)) :
    divided words divide numerator denominator = .ok (divide numerator denominator) := by
  rw [divided, if_neg nonzero, word_of_contains contained]

theorem dividedNat_of_pos
    {divide : Nat → Nat → Nat}
    {numerator denominator : Nat}
    (positive : 0 < denominator) :
    dividedNat divide numerator denominator = .ok (divide numerator denominator) :=
  if_neg (Nat.ne_of_gt positive)

theorem shiftedLeft_of_contains
    {words : Bounds}
    {size value shift : Int}
    (short : 0 ≤ shift ∧ shift < size)
    (contained : words.Contains (value * (1 <<< shift.toNat : Nat))) :
    shiftedLeft words size value shift = .ok (value * (1 <<< shift.toNat : Nat)) := by
  rw [shiftedLeft, if_pos short, word_of_contains contained]

end Guard

section Except

variable {ε σ α β : Type}

/-- A computation goes on with what the one before it answers. -/
theorem bind_of_eq_ok
    {first : Except ε α}
    {next : α → Except ε β}
    {value : α}
    (answered : first = .ok value) :
    first >>= next = next value := by
  rw [answered]
  rfl

theorem mapM_eq_ok_map
    {compute : α → Except ε β}
    {answer : α → β}
    {items : List α}
    (each : ∀ item ∈ items, compute item = .ok (answer item)) :
    items.mapM compute = .ok (items.map answer) := by
  rw [mapM_eq_ok_iff, List.forall₂_map_right_iff, List.forall₂_same]
  exact each

/-- A loop answers what its steps lead to, where each step answers and keeps the invariant that
makes the next one answer. -/
theorem foldlM_eq_ok_foldl
    (holds : σ → Prop)
    {step : σ → α → Except ε σ}
    {next : σ → α → σ}
    {items : List α}
    (each : ∀ state, holds state → ∀ item ∈ items,
      step state item = .ok (next state item) ∧ holds (next state item))
    {state : σ}
    (before : holds state) :
    items.foldlM step state = .ok (items.foldl next state) ∧ holds (items.foldl next state) := by
  induction items generalizing state with
  | nil => exact ⟨rfl, before⟩
  | cons item rest inductionHypothesis =>
      obtain ⟨answered, after⟩ := each state before item List.mem_cons_self
      rw [List.foldlM_cons, bind_of_eq_ok answered]
      exact inductionHypothesis
        (fun state holding other member =>
          each state holding other (List.mem_cons_of_mem _ member)) after

end Except

/-- A guarded computation that draws from a generator. -/
abbrev Guarded (α : Type) : Type :=
  StateT Generator (Except Failure) α

namespace Guarded

variable {α β : Type}

/-- A draw in which nothing can fail. -/
def ofDraw (draw : Draw α) : Guarded α := fun generator =>
  .ok (draw.run generator)

/-- A uniform draw from the numbers below a bound, of which there has to be one. -/
def below (bound : Int) : Guarded Nat :=
  if 0 < bound then
    ofDraw (Draw.below bound.toNat)
  else
    liftM (Except.error Failure.emptyRange : Except Failure Nat)

/-- A guarded computation never fails and draws what the unguarded one draws. -/
def Agrees (guarded : Guarded α) (draw : Draw α) : Prop :=
  ∀ generator, guarded.run generator = .ok (draw.run generator)

theorem agrees_pure (value : α) : Agrees (pure value) (pure value) :=
  fun _ => rfl

/-- A draw in which nothing can fail is itself. -/
theorem agrees_ofDraw (draw : Draw α) : Agrees (ofDraw draw) draw :=
  fun _ => rfl

/-- What follows a guarded computation may rely on what that one can draw. -/
theorem Agrees.bind
    {guarded : Guarded α}
    {draw : Draw α}
    (first : Agrees guarded draw)
    {guardedNext : α → Guarded β}
    {next : α → Draw β}
    (later : ∀ generator,
      Agrees (guardedNext (draw.run generator).1) (next (draw.run generator).1)) :
    Agrees (guarded >>= guardedNext) (draw >>= next) := by
  intro generator
  rw [StateT.run_bind, bind_of_eq_ok (first generator), Draw.run_bind]
  exact later generator _

/-- A guard that answers does not draw. -/
theorem agrees_lift_bind
    {guard : Except Failure α}
    {value : α}
    (answered : guard = .ok value)
    {guardedNext : α → Guarded β}
    {draw : Draw β}
    (later : Agrees (guardedNext value) draw) :
    Agrees (liftM guard >>= guardedNext) draw := by
  intro generator
  subst answered
  exact later generator

theorem agrees_lift
    {guard : Except Failure α}
    {value : α}
    (answered : guard = .ok value) :
    Agrees (liftM guard) (pure value) := by
  intro generator
  subst answered
  rfl

/-- Draws for the items of a list agree where the draw for each item does. -/
theorem agrees_mapM
    {guarded : α → Guarded β}
    {draw : α → Draw β}
    {items : List α}
    (each : ∀ item ∈ items, Agrees (guarded item) (draw item)) :
    Agrees (items.mapM guarded) (items.mapM draw) := by
  induction items with
  | nil => exact agrees_pure []
  | cons item rest inductionHypothesis =>
      rw [List.mapM_cons, List.mapM_cons]
      refine (each item List.mem_cons_self).bind fun _ => ?_
      refine (inductionHypothesis fun other member =>
        each other (List.mem_cons_of_mem _ member)).bind fun _ => ?_
      exact agrees_pure _

theorem agrees_below
    {bound : Nat}
    (positive : 0 < bound) :
    Agrees (below bound) (Draw.below bound) := by
  rw [below, if_pos (by omega)]
  exact agrees_ofDraw _

end Guarded

/-- A guarded computation that may also refuse. -/
abbrev GuardedCheck (α : Type) : Type :=
  ExceptT Refusal (Except Failure) α

namespace GuardedCheck

variable {α β : Type}

/-- A guarded computation never fails and refuses, or answers, as the unguarded one does. -/
def Agrees (guarded : GuardedCheck α) (unguarded : Except Refusal α) : Prop :=
  guarded.run = .ok unguarded

theorem agrees_lift (unguarded : Except Refusal α) : Agrees (liftM unguarded) unguarded :=
  rfl

/-- A guard that answers does not refuse. -/
theorem agrees_guard_bind
    {guard : Except Failure α}
    {value : α}
    (answered : guard = .ok value)
    {guardedNext : α → GuardedCheck β}
    {unguarded : Except Refusal β}
    (later : Agrees (guardedNext value) unguarded) :
    Agrees (liftM guard >>= guardedNext) unguarded := by
  subst answered
  exact later

/-- What follows a check may rely on what it has accepted. -/
theorem Agrees.bind
    {guarded : GuardedCheck α}
    {unguarded : Except Refusal α}
    (first : Agrees guarded unguarded)
    {guardedNext : α → GuardedCheck β}
    {next : α → Except Refusal β}
    (later : ∀ value, unguarded = .ok value → Agrees (guardedNext value) (next value)) :
    Agrees (guarded >>= guardedNext) (unguarded >>= next) := by
  have same : guarded = ExceptT.mk (.ok unguarded) := first
  subst same
  cases unguarded with
  | error refusal => rfl
  | ok value => exact later value rfl

/-- Checks of the items of a list agree where the check of each item does. -/
theorem agrees_mapM
    {guarded : α → GuardedCheck β}
    {unguarded : α → Except Refusal β}
    {items : List α}
    (each : ∀ item ∈ items, Agrees (guarded item) (unguarded item)) :
    Agrees (items.mapM guarded) (items.mapM unguarded) := by
  induction items with
  | nil => rfl
  | cons item rest inductionHypothesis =>
      rw [List.mapM_cons, List.mapM_cons]
      refine (each item List.mem_cons_self).bind fun _ _ => ?_
      refine (inductionHypothesis fun other member =>
        each other (List.mem_cons_of_mem _ member)).bind fun _ _ => ?_
      rfl

end GuardedCheck

end Neurochip
