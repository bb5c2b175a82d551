import Mathlib.Data.List.Sort
import Neurochip.Params.Validation
import Neurochip.Proofs.Error.Acceptance

namespace Neurochip

/-!
# Lists of violations that miss nothing

A check answers a list of violations.  Beside it stands a relation that says,
for every single constraint, by which violation it is broken.  A listing has
exactly one violation for each constraint that is broken, in the order of the
constraints' ranks.  The lemmas make listings of the parts of a check into a
listing of all of it.
-/

theorem checkEach_const (check : α → List Violation) (items : List α) :
    checkEach (fun _ => check) items = items.flatMap check := by
  have values := congrArg (List.flatMap check) (List.zipIdx_map_fst 0 items)
  rwa [List.flatMap_map] at values

/-- What a check lists for only one of several items is counted at this item. -/
theorem count_flatMap_of_unique
    {check : α → List Violation}
    {items : List α}
    (nodup : items.Nodup)
    {item : α}
    (member : item ∈ items)
    {violation : Violation}
    (elsewhere : ∀ other ∈ items, violation ∈ check other → other = item) :
    (items.flatMap check).count violation = (check item).count violation := by
  induction items with
  | nil => cases member
  | cons first rest inductionHypothesis =>
      obtain ⟨fresh, nodupRest⟩ := List.nodup_cons.mp nodup
      rw [List.flatMap_cons, List.count_append]
      rcases List.mem_cons.mp member with rfl | inRest
      · have absent : violation ∉ rest.flatMap check := by
          intro listed
          obtain ⟨other, memberOther, here⟩ := List.mem_flatMap.mp listed
          exact fresh (elsewhere other (.tail _ memberOther) here ▸ memberOther)
        rw [List.count_eq_zero.mpr absent, Nat.add_zero]
      · have absent : violation ∉ check first := by
          intro here
          exact fresh (elsewhere first List.mem_cons_self here ▸ inRest)
        rw [List.count_eq_zero.mpr absent, Nat.zero_add]
        exact inductionHypothesis nodupRest inRest
          fun other memberOther => elsewhere other (.tail _ memberOther)

variable {C : Type}

/-- The violations are those of some constraints, one for each that is broken, in order of rank. -/
def Listing
    (part : C → Prop)
    (breaks : C → Violation → Prop)
    (rank : C → List Nat)
    (violations : List Violation) :
    Prop :=
  ∃ broken : List C,
    (broken.Pairwise fun first second => rank first < rank second) ∧
    List.Forall₂ breaks broken violations ∧
    (∀ constraint ∈ broken, part constraint) ∧
    ∀ constraint violation, part constraint → breaks constraint violation → constraint ∈ broken

namespace Listing

variable {part other : C → Prop} {breaks : C → Violation → Prop} {rank : C → List Nat}
  {violations others : List Violation}

/-- Every listed violation breaks one of the constraints. -/
theorem exists_of_mem
    (listing : Listing part breaks rank violations)
    {violation : Violation}
    (member : violation ∈ violations) :
    ∃ constraint, part constraint ∧ breaks constraint violation := by
  obtain ⟨broken, _, matching, parts, _⟩ := listing
  obtain ⟨constraint, inBroken, breach⟩ := exists_of_mem_forall₂ matching member
  exact ⟨constraint, parts constraint inBroken, breach⟩

/-- Constraints that cannot be broken make no difference. -/
theorem widen
    (listing : Listing part breaks rank violations)
    (included : ∀ constraint, part constraint → other constraint)
    (breakable : ∀ constraint violation,
      other constraint → breaks constraint violation → part constraint) :
    Listing other breaks rank violations := by
  obtain ⟨broken, ordered, matching, parts, complete⟩ := listing
  refine ⟨broken, ordered, matching, fun constraint member => included _ (parts _ member), ?_⟩
  intro constraint violation within breach
  exact complete _ _ (breakable _ _ within breach) breach

theorem congr
    (listing : Listing part breaks rank violations)
    (same : ∀ constraint, part constraint ↔ other constraint) :
    Listing other breaks rank violations :=
  listing.widen (fun constraint => (same constraint).mp)
    fun constraint _ within _ => (same constraint).mpr within

theorem nil : Listing (fun _ => False) breaks rank [] :=
  ⟨[], .nil, .nil, by simp, by simp⟩

/-- Nothing is listed for a single constraint that is kept. -/
theorem kept
    {constraint : C}
    (unbroken : ∀ value, ¬ breaks constraint value) :
    Listing (· = constraint) breaks rank [] :=
  nil.widen (by simp) (by rintro _ value rfl breach; exact unbroken value breach)

/-- One violation is listed for a single constraint that is broken. -/
theorem broken
    {constraint : C}
    {violation : Violation}
    (only : ∀ value, breaks constraint value ↔ value = violation) :
    Listing (· = constraint) breaks rank [violation] := by
  refine ⟨[constraint], List.pairwise_singleton _ _, .cons ((only violation).mpr rfl) .nil,
    by simp, ?_⟩
  rintro _ _ rfl _
  exact List.mem_singleton_self _

/-- A single constraint, whose violation is listed where it does not hold. -/
theorem single
    {constraint : C}
    {holds : Prop}
    [Decidable holds]
    {violation : Violation}
    (breach : ∀ value, breaks constraint value ↔ ¬ holds ∧ value = violation) :
    Listing (· = constraint) breaks rank (if holds then [] else [violation]) := by
  split
  · rename_i holding
    exact kept fun value broke => ((breach value).mp broke).1 holding
  · rename_i failing
    exact broken fun value => (breach value).trans (and_iff_right failing)

/-- Listings one after the other list both, if all constraints of the first come before. -/
theorem append
    (first : Listing part breaks rank violations)
    (second : Listing other breaks rank others)
    (before : ∀ constraint later, part constraint → other later → rank constraint < rank later) :
    Listing (fun constraint => part constraint ∨ other constraint) breaks rank
      (violations ++ others) := by
  obtain ⟨broken, ordered, matching, parts, complete⟩ := first
  obtain ⟨brokenLater, orderedLater, matchingLater, partsLater, completeLater⟩ := second
  refine ⟨broken ++ brokenLater, List.pairwise_append.mpr ⟨ordered, orderedLater, ?_⟩,
    List.rel_append matching matchingLater, ?_, ?_⟩
  · intro constraint member later memberLater
    exact before _ _ (parts _ member) (partsLater _ memberLater)
  · intro constraint member
    exact (List.mem_append.mp member).imp (parts _) (partsLater _)
  · rintro constraint violation (here | there) breach
    · exact List.mem_append_left _ (complete _ _ here breach)
    · exact List.mem_append_right _ (completeLater _ _ there breach)

/-- Checks of items in order of rank list the constraints of all items. -/
theorem flatMap
    {check : α → List Violation}
    {parts : α → C → Prop}
    {items : List α}
    (each : ∀ item ∈ items, Listing (parts item) breaks rank (check item))
    (ordered : items.Pairwise fun first second => ∀ constraint later,
      parts first constraint → parts second later → rank constraint < rank later) :
    Listing (fun constraint => ∃ item ∈ items, parts item constraint) breaks rank
      (items.flatMap check) := by
  induction items with
  | nil => exact nil.congr (by simp)
  | cons item rest inductionHypothesis =>
      obtain ⟨here, later⟩ := List.pairwise_cons.mp ordered
      have others := inductionHypothesis (fun other member => each other (.tail _ member)) later
      have both := (each item List.mem_cons_self).append others ?_
      · rw [List.flatMap_cons]
        exact both.congr (by simp)
      · rintro constraint after first ⟨other, member, second⟩
        exact here other member constraint after first second

/-- The constraints of a listing may be those of something larger. -/
theorem map
    {D : Type}
    {breaksOuter : D → Violation → Prop}
    {rankOuter : D → List Nat}
    (listing : Listing part breaks rank violations)
    (wrap : C → D)
    (same : ∀ constraint violation,
      breaksOuter (wrap constraint) violation ↔ breaks constraint violation)
    (monotone : ∀ constraint later,
      rank constraint < rank later → rankOuter (wrap constraint) < rankOuter (wrap later)) :
    Listing (fun outer => ∃ constraint, part constraint ∧ outer = wrap constraint)
      breaksOuter rankOuter violations := by
  obtain ⟨broken, ordered, matching, parts, complete⟩ := listing
  refine ⟨broken.map wrap, List.pairwise_map.mpr (ordered.imp (monotone _ _)), ?_, ?_, ?_⟩
  · exact List.forall₂_map_left_iff.mpr (matching.imp fun _ _ => (same _ _).mpr)
  · intro outer member
    obtain ⟨constraint, inBroken, rfl⟩ := List.mem_map.mp member
    exact ⟨constraint, parts _ inBroken, rfl⟩
  · rintro _ violation ⟨constraint, within, rfl⟩ breach
    exact List.mem_map_of_mem (complete _ _ within ((same _ _).mp breach))

/-- A check of every item lists the constraints at all positions, if those at later positions have
higher ranks; where there is no item, there is nothing to break. -/
theorem checkEach
    {check : Nat → α → List Violation}
    {parts : Nat → C → Prop}
    {items : List α}
    (each : ∀ position item, items[position]? = some item →
      Listing (parts position) breaks rank (check position item))
    (ordered : ∀ first second constraint later, first < second →
      parts first constraint → parts second later → rank constraint < rank later)
    (breakable : ∀ position constraint violation,
      parts position constraint → breaks constraint violation → position < items.length) :
    Listing (fun constraint => ∃ position, parts position constraint) breaks rank
      (checkEach check items) := by
  have listed : Listing (fun constraint => ∃ entry ∈ items.zipIdx, parts entry.2 constraint)
      breaks rank (Neurochip.checkEach check items) :=
    flatMap
      (fun (item, position) member =>
        each position item (List.mk_mem_zipIdx_iff_getElem?.mp member))
      ((pairwise_zipIdx items).imp fun lower constraint later => ordered _ _ constraint later lower)
  refine listed.widen ?_ ?_
  · rintro constraint ⟨entry, _, within⟩
    exact ⟨entry.2, within⟩
  · rintro constraint violation ⟨position, within⟩ breach
    have inside := breakable position constraint violation within breach
    exact ⟨(items[position], position),
      List.mk_mem_zipIdx_iff_getElem?.mpr (List.getElem?_eq_getElem inside), within⟩

/-- A check of every item lists the constraints at all positions, if there is one at each. -/
theorem checkEach_single
    {check : Nat → α → List Violation}
    {items : List α}
    {wrap : Nat → C}
    (each : ∀ position item, items[position]? = some item →
      Listing (· = wrap position) breaks rank (check position item))
    {first : Nat}
    (ranked : ∀ position, rank (wrap position) = [first, position])
    (breakable : ∀ position violation,
      breaks (wrap position) violation → position < items.length) :
    Listing (fun outer => ∃ position, outer = wrap position) breaks rank
      (Neurochip.checkEach check items) := by
  refine checkEach each ?_ ?_
  · rintro position after _ _ before rfl rfl
    rw [ranked, ranked]
    exact List.cons_lt_cons_iff.mpr (.inr ⟨rfl, List.cons_lt_cons_iff.mpr (.inl before)⟩)
  · rintro position _ violation rfl breach
    exact breakable position violation breach

/-- A check of every item lists the constraints of all items, each with the position of its item. -/
theorem checkEach_wrap
    {D : Type}
    {check : Nat → α → List Violation}
    {items : List α}
    {breaksItem : Nat → α → D → Violation → Prop}
    {rankItem : D → List Nat}
    (each : ∀ position item,
      Listing (fun _ => True) (breaksItem position item) rankItem (check position item))
    (wrap : Nat → D → C)
    (same : ∀ position constraint violation, breaks (wrap position constraint) violation ↔
      ∃ item, items[position]? = some item ∧ breaksItem position item constraint violation)
    {first : Nat}
    (ranked : ∀ position constraint,
      rank (wrap position constraint) = first :: position :: rankItem constraint) :
    Listing (fun outer => ∃ position constraint, outer = wrap position constraint) breaks rank
      (Neurochip.checkEach check items) := by
  refine checkEach (fun position item found => ?_) ?_ ?_
  · refine ((each position item).map (wrap position) ?_ ?_).congr (by simp)
    · intro constraint violation
      simp [same, found]
    · intro constraint later before
      rw [ranked, ranked]
      exact List.cons_lt_cons_iff.mpr (.inr ⟨rfl, List.cons_lt_cons_iff.mpr (.inr ⟨rfl, before⟩)⟩)
  · rintro position after _ _ before ⟨constraint, rfl⟩ ⟨later, rfl⟩
    rw [ranked, ranked]
    exact List.cons_lt_cons_iff.mpr (.inr ⟨rfl, List.cons_lt_cons_iff.mpr (.inl before)⟩)
  · rintro position _ violation ⟨constraint, rfl⟩ breach
    obtain ⟨item, found, _⟩ := (same position constraint violation).mp breach
    exact (List.getElem?_eq_some_iff.mp found).1

section

variable {constraint : C} {path : Path}

theorem single_ofRange
    {bounds : Bounds}
    {value : Int}
    (breach : ∀ violation, breaks constraint violation ↔
      ¬ (bounds.lower ≤ value ∧ value ≤ bounds.upper) ∧
        violation = .outsideRange path bounds.lower bounds.upper value) :
    Listing (· = constraint) breaks rank (Violation.ofRange path bounds value) :=
  single breach

theorem single_ofMaximum
    {maximum value : Nat}
    (breach : ∀ violation, breaks constraint violation ↔
      maximum < value ∧ violation = .outsideRange path 0 maximum value) :
    Listing (· = constraint) breaks rank (Violation.ofMaximum path maximum value) := by
  refine single_ofRange fun violation => (breach violation).trans (and_congr_left fun _ => ?_)
  dsimp only
  omega

theorem single_ofLimit
    {limit : Limit}
    {bound value : Nat}
    (breach : ∀ violation, breaks constraint violation ↔
      bound ≤ value ∧ violation = .notBelow path limit bound value) :
    Listing (· = constraint) breaks rank (Violation.ofLimit path limit bound value) :=
  single fun violation => (breach violation).trans (and_congr_left fun _ => Nat.not_lt.symm)

/-- A limit that there may be, on a number that has to stay below it. -/
theorem single_ofLimit?
    {limit : Limit}
    {bound? : Option Nat}
    {value : Nat}
    (breach : ∀ violation, breaks constraint violation ↔
      ∃ bound, bound? = some bound ∧ bound ≤ value ∧
        violation = .notBelow path limit bound value) :
    Listing (· = constraint) breaks rank
      (bound?.elim [] fun bound => Violation.ofLimit path limit bound value) := by
  cases bound? with
  | none => exact kept fun violation broke => by simpa using (breach violation).mp broke
  | some bound => exact single_ofLimit fun violation => (breach violation).trans (by simp)

/-- A reference whose object has to exist. -/
theorem single_isNone
    {size? : Option Nat}
    {violation : Violation}
    (breach : ∀ value, breaks constraint value ↔ size? = none ∧ value = violation) :
    Listing (· = constraint) breaks rank (if size?.isNone then [violation] else []) := by
  cases size? with
  | none => exact broken fun value => (breach value).trans (and_iff_right rfl)
  | some size => exact kept fun value broke => by simpa using (breach value).mp broke

end

end Listing

end Neurochip
