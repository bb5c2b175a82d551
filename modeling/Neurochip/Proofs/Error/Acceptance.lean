import Mathlib.Data.List.Forall2
import Neurochip.Error

namespace Neurochip

/-!
# Computations that may be refused

A sequence of computations is accepted exactly when each of them is, and refused
with the error of the first that is not.
-/

variable {ε α β : Type}

theorem pure_eq_ok_iff {value result : α} :
    (pure value : Except ε α) = .ok result ↔ value = result :=
  ⟨Except.ok.inj, congrArg _⟩

theorem bind_eq_ok_iff
    {first : Except ε α}
    {next : α → Except ε β}
    {result : β} :
    first >>= next = .ok result ↔ ∃ value, first = .ok value ∧ next value = .ok result := by
  cases first with
  | error error => simp [bind, Except.bind]
  | ok value => simp [bind, Except.bind]

/-- A check before a computation passes when both do. -/
theorem check_bind_eq_ok_iff
    {check : Except ε Unit}
    {next : Unit → Except ε β}
    {result : β} :
    check >>= next = .ok result ↔ check = .ok () ∧ next () = .ok result := by
  rw [bind_eq_ok_iff]
  exact ⟨fun ⟨_, passed, rest⟩ => ⟨passed, rest⟩, fun ⟨passed, rest⟩ => ⟨(), passed, rest⟩⟩

theorem bind_eq_error_iff
    {first : Except ε α}
    {next : α → Except ε β}
    {error : ε} :
    first >>= next = .error error ↔
      first = .error error ∨ ∃ value, first = .ok value ∧ next value = .error error := by
  cases first with
  | error other => simp [bind, Except.bind]
  | ok value => simp [bind, Except.bind]

/-- A check before a computation refuses it first. -/
theorem check_bind_eq_error_iff
    {check : Except ε Unit}
    {next : Unit → Except ε β}
    {error : ε} :
    check >>= next = .error error ↔
      check = .error error ∨ check = .ok () ∧ next () = .error error := by
  rw [bind_eq_error_iff]
  exact or_congr_right
    ⟨fun ⟨_, passed, rest⟩ => ⟨passed, rest⟩, fun ⟨passed, rest⟩ => ⟨(), passed, rest⟩⟩

/-- Every result belongs to an item. -/
theorem exists_of_mem_forall₂
    {related : α → β → Prop}
    {items : List α}
    {results : List β}
    (all : List.Forall₂ related items results)
    {result : β}
    (member : result ∈ results) :
    ∃ item ∈ items, related item result := by
  induction all with
  | nil => cases member
  | cons here _ inductionHypothesis =>
      rcases List.mem_cons.mp member with rfl | later
      · exact ⟨_, List.mem_cons_self, here⟩
      · obtain ⟨item, found, matching⟩ := inductionHypothesis later
        exact ⟨item, List.mem_cons_of_mem _ found, matching⟩

/-- A list of computations is accepted when each one is, with the results in order. -/
theorem mapM_eq_ok_iff
    {compute : α → Except ε β}
    {items : List α}
    {results : List β} :
    items.mapM compute = .ok results ↔
      List.Forall₂ (fun item result => compute item = .ok result) items results := by
  induction items generalizing results with
  | nil =>
      simp only [List.mapM_nil, List.forall₂_nil_left_iff]
      exact ⟨fun same => (Except.ok.inj same).symm, fun same => by rw [same]; rfl⟩
  | cons item rest inductionHypothesis =>
      rw [List.mapM_cons, bind_eq_ok_iff]
      constructor
      · rintro ⟨result, accepted, continued⟩
        obtain ⟨others, restAccepted, same⟩ := bind_eq_ok_iff.mp continued
        obtain rfl := Except.ok.inj same
        exact .cons accepted (inductionHypothesis.mp restAccepted)
      · intro accepted
        cases accepted with
        | cons here others =>
            exact ⟨_, here, bind_eq_ok_iff.mpr ⟨_, inductionHypothesis.mpr others, rfl⟩⟩

/-- A list of computations is accepted when each one is, whatever the results. -/
theorem exists_mapM_eq_ok
    {compute : α → Except ε β}
    {items : List α}
    (each : ∀ item ∈ items, ∃ result, compute item = .ok result) :
    ∃ results, items.mapM compute = .ok results := by
  induction items with
  | nil => exact ⟨[], rfl⟩
  | cons item rest inductionHypothesis =>
      obtain ⟨result, here⟩ := each item List.mem_cons_self
      obtain ⟨results, others⟩ := inductionHypothesis fun other member =>
        each other (List.mem_cons_of_mem _ member)
      exact ⟨result :: results,
        mapM_eq_ok_iff.mpr (.cons here (mapM_eq_ok_iff.mp others))⟩

theorem forM_eq_ok_iff
    {check : α → Except ε Unit}
    {items : List α} :
    items.forM check = .ok () ↔ ∀ item ∈ items, check item = .ok () := by
  induction items with
  | nil => exact ⟨fun _ => by simp, fun _ => rfl⟩
  | cons item rest inductionHypothesis =>
      have first : (item :: rest).forM check = (check item >>= fun _ => rest.forM check) := rfl
      rw [first, check_bind_eq_ok_iff, inductionHypothesis, List.forall_mem_cons]

/-- The first item of a list with a property, and the index at which it is found. -/
structure IsFirst (property : α → Prop) (items : List α) (index : Nat) (item : α) : Prop where
  found : items[index]? = some item
  holds : property item
  earlier : ∀ position < index, ∀ other, items[position]? = some other → ¬ property other

theorem isFirst_zero
    {property : α → Prop}
    {item : α}
    (rest : List α)
    (holds : property item) :
    IsFirst property (item :: rest) 0 item :=
  ⟨rfl, holds, fun _ before => absurd before (Nat.not_lt_zero _)⟩

/-- After an item without the property the first one is that of the rest. -/
theorem isFirst_cons_of_not
    {property : α → Prop}
    {first : α}
    (absent : ¬ property first)
    {rest : List α}
    {index : Nat}
    {item : α} :
    IsFirst property (first :: rest) index item ↔
      ∃ before, index = before + 1 ∧ IsFirst property rest before item := by
  constructor
  · rintro ⟨found, holds, earlier⟩
    cases index with
    | zero =>
        obtain rfl := Option.some.inj found
        exact absurd holds absent
    | succ before =>
        exact ⟨before, rfl, found, holds, fun position smaller =>
          earlier (position + 1) (Nat.succ_lt_succ smaller)⟩
  · rintro ⟨before, rfl, found, holds, earlier⟩
    refine ⟨found, holds, fun position smaller other place => ?_⟩
    cases position with
    | zero =>
        obtain rfl := Option.some.inj place
        exact absent
    | succ position => exact earlier position (Nat.lt_of_succ_lt_succ smaller) other place

/-- There is a first item with a property exactly when there is one at all. -/
theorem exists_isFirst_iff {property : α → Prop} {items : List α} :
    (∃ index item, IsFirst property items index item) ↔ ∃ item ∈ items, property item := by
  constructor
  · rintro ⟨index, item, first⟩
    exact ⟨item, List.mem_of_getElem? first.found, first.holds⟩
  · rintro ⟨item, member, holds⟩
    induction items with
    | nil => cases member
    | cons head rest inductionHypothesis =>
        by_cases here : property head
        · exact ⟨0, head, isFirst_zero rest here⟩
        · have later : item ∈ rest :=
            (List.mem_cons.mp member).resolve_left fun same => here (same ▸ holds)
          obtain ⟨index, first, isFirst⟩ := inductionHypothesis later
          exact ⟨index + 1, first, (isFirst_cons_of_not here).mpr ⟨index, rfl, isFirst⟩⟩

/-- Items are numbered in increasing order. -/
theorem pairwise_zipIdx {α : Type*} (items : List α) :
    items.zipIdx.Pairwise fun first second => first.2 < second.2 := by
  rw [← List.pairwise_map, List.zipIdx_map_snd]
  exact List.pairwise_lt_range'

/-- Among numbered items, the first with a property of the item has the number of its place. -/
theorem isFirst_zipIdx_iff
    {property : α → Prop}
    {items : List α}
    {index number : Nat}
    {item : α} :
    IsFirst (fun entry : α × Nat => property entry.1) items.zipIdx index (item, number) ↔
      IsFirst property items index item ∧ number = index := by
  have numbered : ∀ position : Nat, items.zipIdx[position]? =
      items[position]?.map fun item => (item, position) := by
    intro position
    rw [List.getElem?_zipIdx, Nat.zero_add]
  constructor
  · rintro ⟨found, holds, earlier⟩
    rw [numbered] at found
    obtain ⟨_, place, same⟩ := Option.map_eq_some_iff.mp found
    obtain ⟨rfl, rfl⟩ := Prod.mk.inj same
    refine ⟨⟨place, holds, fun position smaller other there => ?_⟩, rfl⟩
    exact earlier position smaller (other, position) (by rw [numbered, there]; rfl)
  · rintro ⟨⟨found, holds, earlier⟩, rfl⟩
    refine ⟨by rw [numbered, found]; rfl, holds, fun position smaller entry there => ?_⟩
    rw [numbered] at there
    obtain ⟨other, place, rfl⟩ := Option.map_eq_some_iff.mp there
    exact earlier position smaller other place

/-- What is the same property for the items of a list has the same first item. -/
theorem isFirst_congr
    {property other : α → Prop}
    {items : List α}
    (same : ∀ item ∈ items, property item ↔ other item)
    {index : Nat}
    {item : α} :
    IsFirst property items index item ↔ IsFirst other items index item := by
  constructor
  · rintro ⟨found, holds, earlier⟩
    refine ⟨found, (same item (List.mem_of_getElem? found)).mp holds, ?_⟩
    intro position smaller before place
    rw [← same before (List.mem_of_getElem? place)]
    exact earlier position smaller before place
  · rintro ⟨found, holds, earlier⟩
    refine ⟨found, (same item (List.mem_of_getElem? found)).mpr holds, ?_⟩
    intro position smaller before place
    rw [same before (List.mem_of_getElem? place)]
    exact earlier position smaller before place

/-- Whether a computation is refused for an item. -/
def Refuses (compute : α → Except ε β) (item : α) : Prop :=
  ∃ error, compute item = .error error

/-- A list of computations is refused with the error of the first that is refused. -/
theorem mapM_eq_error_iff
    {compute : α → Except ε β}
    {items : List α}
    {error : ε} :
    items.mapM compute = .error error ↔
      ∃ index item, IsFirst (Refuses compute) items index item ∧
        compute item = .error error := by
  induction items with
  | nil =>
      constructor
      · intro impossible
        cases impossible
      · rintro ⟨_, _, ⟨found, _, _⟩, _⟩
        cases found
  | cons item rest inductionHypothesis =>
      rw [List.mapM_cons, bind_eq_error_iff]
      cases here : compute item with
      | error other =>
          have refused : Refuses compute item := ⟨other, here⟩
          constructor
          · rintro (same | ⟨_, impossible, _⟩)
            · exact ⟨0, item, isFirst_zero rest refused, here.trans same⟩
            · cases impossible
          · rintro ⟨index, found, isFirst, failed⟩
            cases index with
            | zero =>
                obtain rfl := Option.some.inj isFirst.found
                exact .inl (here.symm.trans failed)
            | succ index =>
                exact absurd refused (isFirst.earlier 0 (Nat.succ_pos index) item rfl)
      | ok result =>
          have passed : ¬ Refuses compute item := by
            rintro ⟨other, failed⟩
            cases here.symm.trans failed
          have continued : (rest.mapM compute >>= fun results => pure (result :: results)) =
              .error error ↔ rest.mapM compute = .error error := by
            cases rest.mapM compute <;> simp [bind, Except.bind, pure, Except.pure]
          simp only [reduceCtorEq, false_or, Except.ok.injEq, exists_eq_left', continued,
            inductionHypothesis, isFirst_cons_of_not passed]
          constructor
          · rintro ⟨index, found, isFirst, failed⟩
            exact ⟨index + 1, found, ⟨index, rfl, isFirst⟩, failed⟩
          · rintro ⟨_, found, ⟨index, rfl, isFirst⟩, failed⟩
            exact ⟨index, found, isFirst, failed⟩

/-- Checks in sequence are refused by the first of them that is refused. -/
theorem exists_first_of_forM_eq_error
    {check : α → Except ε Unit}
    {items : List α}
    {error : ε}
    (refused : items.forM check = .error error) :
    ∃ before first after, items = before ++ first :: after ∧
      (∀ item ∈ before, check item = .ok ()) ∧ check first = .error error := by
  induction items with
  | nil => cases refused
  | cons item rest inductionHypothesis =>
      have first : (item :: rest).forM check = (check item >>= fun _ => rest.forM check) := rfl
      cases here : check item with
      | error other =>
          rw [first, here] at refused
          obtain rfl := Except.error.inj refused
          exact ⟨[], item, rest, rfl, by simp, here⟩
      | ok passed =>
          rw [first, here] at refused
          obtain ⟨before, later, after, rfl, accepted, failed⟩ := inductionHypothesis refused
          exact ⟨item :: before, later, after, rfl,
            List.forall_mem_cons.mpr ⟨here, accepted⟩, failed⟩

/-- Computations that are checks with results are the checks in sequence, then all results. -/
theorem mapM_eq_forM_bind
    {compute : α → Except ε β}
    {check : α → Except ε Unit}
    {result : α → β}
    (checked : ∀ item, compute item = check item >>= fun _ => pure (result item))
    (items : List α) :
    items.mapM compute = items.forM check >>= fun _ => pure (items.map result) := by
  induction items with
  | nil => rfl
  | cons item rest inductionHypothesis =>
      have first : (item :: rest).forM check = (check item >>= fun _ => rest.forM check) := rfl
      rw [List.mapM_cons, checked, inductionHypothesis, first]
      cases check item with
      | error error => rfl
      | ok passed => cases rest.forM check <;> rfl

/-- Checks in sequence are refused with the error of the first that is refused. -/
theorem forM_eq_error_iff
    {check : α → Except ε Unit}
    {items : List α}
    {error : ε} :
    items.forM check = .error error ↔
      ∃ index item, IsFirst (Refuses check) items index item ∧ check item = .error error := by
  have checked : ∀ item, check item = check item >>= fun _ => pure () := fun item => by
    cases check item <;> rfl
  rw [← mapM_eq_error_iff, mapM_eq_forM_bind checked]
  cases items.forM check <;> simp [bind, Except.bind, pure, Except.pure]

/-- A computation is run to see whether it is accepted and something holds for its result. -/
instance decidableAccepted
    {computation : Except ε α}
    {holds : α → Prop}
    [DecidablePred holds] :
    Decidable (∃ result, computation = .ok result ∧ holds result) :=
  match computation with
  | .error _ => .isFalse fun ⟨_, accepted, _⟩ => nomatch accepted
  | .ok result =>
      decidable_of_iff (holds result)
        ⟨fun here => ⟨result, rfl, here⟩, fun ⟨_, same, here⟩ => Except.ok.inj same ▸ here⟩

/-- The result of a computation, or a given value if it is refused. -/
def resultOr (otherwise : α) : Except ε α → α
  | .ok result => result
  | .error _ => otherwise

/-- What holds for the given value and for an accepted result holds either way. -/
theorem resultOr_of_accepted
    (holds : α → Prop)
    {otherwise : α}
    {computation : Except ε α}
    (refused : holds otherwise)
    (accepted : ∀ result, computation = .ok result → holds result) :
    holds (resultOr otherwise computation) := by
  cases computation with
  | error error => exact refused
  | ok result => exact accepted result rfl

/-- Two computations that are refused with the same error, or accepted with related results. -/
inductive Matched (related : α → β → Prop) : Except ε α → Except ε β → Prop where
  | refused (error : ε) : Matched related (.error error) (.error error)
  | accepted {result : α} {other : β} :
      related result other → Matched related (.ok result) (.ok other)

namespace Matched

variable {related : α → β → Prop}

/-- After the same first part, computations match if they do wherever it is accepted. -/
theorem bind_same
    {γ : Type}
    {first : Except ε γ}
    {next : γ → Except ε α}
    {otherNext : γ → Except ε β}
    (matched : ∀ value, first = .ok value → Matched related (next value) (otherNext value)) :
    Matched related (first >>= next) (first >>= otherNext) := by
  cases first with
  | error error => exact .refused error
  | ok value => exact matched value rfl

/-- After matching first parts, computations match if they do for related results. -/
theorem bind
    {γ δ : Type}
    {relatedNext : γ → δ → Prop}
    {first : Except ε α}
    {second : Except ε β}
    (matched : Matched related first second)
    {next : α → Except ε γ}
    {otherNext : β → Except ε δ}
    (each : ∀ result other, first = .ok result → second = .ok other → related result other →
      Matched relatedNext (next result) (otherNext other)) :
    Matched relatedNext (first >>= next) (second >>= otherNext) := by
  cases matched with
  | refused error => exact .refused error
  | accepted holds => exact each _ _ rfl rfl holds

/-- What is left of matching computations without their results is the same. -/
theorem discard_eq
    {first : Except ε α}
    {second : Except ε β}
    (matched : Matched related first second) :
    (fun _ => ()) <$> first = (fun _ => ()) <$> second := by
  cases matched <;> rfl

/-- The results of matching computations are related, or the values in their place. -/
theorem resultOr
    {first : Except ε α}
    {second : Except ε β}
    (matched : Matched related first second)
    {otherwise : α}
    {otherOtherwise : β}
    (holds : related otherwise otherOtherwise) :
    related (Neurochip.resultOr otherwise first) (Neurochip.resultOr otherOtherwise second) := by
  cases matched with
  | refused error => exact holds
  | accepted holds => exact holds

end Matched

end Neurochip
