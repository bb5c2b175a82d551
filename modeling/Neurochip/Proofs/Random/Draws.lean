import Mathlib.Data.List.Forall2
import Mathlib.Data.List.Nodup
import Mathlib.Logic.Function.Iterate
import Neurochip.Random.Draw

namespace Neurochip.Draw

/-!
# Drawing for each item of a list

Draws for the items of a list are made in order, each from the generator that
the ones before it have left.
-/

variable {α β γ : Type}

/-- The draw for the first item comes before those for the others. -/
theorem run_mapM_cons
    (draw : α → Draw β)
    (item : α)
    (rest : List α)
    (generator : Generator) :
    ((item :: rest).mapM draw).run generator =
      (((draw item).run generator).1 ::
          ((rest.mapM draw).run ((draw item).run generator).2).1,
        ((rest.mapM draw).run ((draw item).run generator).2).2) := by
  rw [List.mapM_cons, run_bind, run_bind, run_pure]

/-- Each result belongs to its item, whatever generator its draw has started from. -/
theorem forall₂_run_mapM
    (draw : α → Draw β)
    (items : List α)
    (generator : Generator) :
    List.Forall₂ (fun item result => ∃ before, ((draw item).run before).1 = result)
      items ((items.mapM draw).run generator).1 := by
  induction items generalizing generator with
  | nil => simp
  | cons item rest inductionHypothesis =>
      rw [run_mapM_cons]
      exact .cons ⟨generator, rfl⟩ (inductionHypothesis _)

@[simp] theorem length_run_mapM
    (draw : α → Draw β)
    (items : List α)
    (generator : Generator) :
    ((items.mapM draw).run generator).1.length = items.length :=
  (forall₂_run_mapM draw items generator).length_eq.symm

/-- The result at a position is drawn for the item there. -/
theorem exists_getElem?_run_mapM
    (draw : α → Draw β)
    {items : List α}
    {position : Nat}
    {item : α}
    (place : items[position]? = some item)
    (generator : Generator) :
    ∃ before, ((items.mapM draw).run generator).1[position]? = some ((draw item).run before).1 := by
  induction items generalizing position generator with
  | nil => cases place
  | cons first rest inductionHypothesis =>
      rw [run_mapM_cons]
      cases position with
      | zero =>
          cases place
          exact ⟨generator, rfl⟩
      | succ position => exact inductionHypothesis place _

/-- The draw for the item at a position starts where those for the items before it end. -/
theorem getElem?_run_mapM
    (draw : α → Draw β)
    (items : List α)
    (position : Nat)
    (generator : Generator) :
    ((items.mapM draw).run generator).1[position]? =
      items[position]?.map fun item =>
        ((draw item).run (((items.take position).mapM draw).run generator).2).1 := by
  induction items generalizing position generator with
  | nil => simp
  | cons first rest inductionHypothesis =>
      rw [run_mapM_cons]
      cases position with
      | zero => rfl
      | succ position =>
          rw [List.getElem?_cons_succ, List.getElem?_cons_succ, inductionHypothesis,
            List.take_succ_cons, run_mapM_cons]

/-- Draws that move the generator in one way, whatever their items are, move it once for each. -/
theorem run_mapM_snd
    {draw : α → Draw β}
    {advance : Generator → Generator}
    (advances : ∀ item generator, ((draw item).run generator).2 = advance generator)
    (items : List α)
    (generator : Generator) :
    ((items.mapM draw).run generator).2 = advance^[items.length] generator := by
  induction items generalizing generator with
  | nil => rfl
  | cons item rest inductionHypothesis =>
      rw [run_mapM_cons, inductionHypothesis, advances, List.length_cons,
        Function.iterate_succ_apply]

/-- Among draws for numbers, each one starts where the generator has been moved that many times. -/
theorem getElem?_run_mapM_range
    {draw : Nat → Draw β}
    {advance : Generator → Generator}
    (advances : ∀ number generator, ((draw number).run generator).2 = advance generator)
    {count number : Nat}
    (small : number < count)
    (generator : Generator) :
    (((List.range count).mapM draw).run generator).1[number]? =
      some ((draw number).run (advance^[number] generator)).1 := by
  rw [getElem?_run_mapM, List.getElem?_range small, Option.map_some, run_mapM_snd advances,
    List.length_take, List.length_range, Nat.min_eq_left (Nat.le_of_lt small)]

/-- A result that tells the number it is drawn for is found exactly among the results for it. -/
theorem mem_flatten_run_mapM_range_iff
    {draw : Nat → Draw (List β)}
    {number : β → Nat}
    {advance : Generator → Generator}
    (advances : ∀ number generator, ((draw number).run generator).2 = advance generator)
    (labelled : ∀ before generator, ∀ result ∈ ((draw before).run generator).1,
      number result = before)
    {count : Nat}
    {result : β}
    (small : number result < count)
    (generator : Generator) :
    result ∈ (((List.range count).mapM draw).run generator).1.flatten ↔
      result ∈ ((draw (number result)).run (advance^[number result] generator)).1 := by
  rw [List.mem_flatten]
  constructor
  · rintro ⟨drawn, member, inDrawn⟩
    obtain ⟨place, found⟩ := List.mem_iff_getElem?.mp member
    have inside : place < count := by
      simpa using (List.getElem?_eq_some_iff.mp found).1
    rw [getElem?_run_mapM_range advances inside generator] at found
    obtain rfl := Option.some.inj found
    rwa [labelled _ _ result inDrawn]
  · intro inDrawn
    exact ⟨_, List.mem_of_getElem? (getElem?_run_mapM_range advances small generator), inDrawn⟩

/-- Draws for items that are made in the same way item by item are the same draws. -/
theorem mapM_congr
    {draw : α → Draw β}
    {items others : List α}
    (same : items.map draw = others.map draw) :
    items.mapM draw = others.mapM draw := by
  have inTurn : ∀ items : List α, items.mapM draw = (items.map draw).mapM id := by
    intro items
    rw [List.mapM_map]
    rfl
  rw [inTurn, inTurn, same]

/-- What no draw changes about its item is the same for all items. -/
theorem map_run_mapM
    {draw : α → Draw β}
    {before : α → γ}
    {after : β → γ}
    (kept : ∀ item generator, after ((draw item).run generator).1 = before item)
    (items : List α)
    (generator : Generator) :
    ((items.mapM draw).run generator).1.map after = items.map before := by
  induction items generalizing generator with
  | nil => simp
  | cons item rest inductionHypothesis =>
      simp [kept, inductionHypothesis]

/-- What every draw establishes holds for all results. -/
theorem forall_mem_run_mapM
    {draw : α → Draw β}
    (holds : β → Prop)
    {items : List α}
    (established : ∀ item ∈ items, ∀ generator, holds ((draw item).run generator).1)
    (generator : Generator) :
    ∀ result ∈ ((items.mapM draw).run generator).1, holds result := by
  induction items generalizing generator with
  | nil => simp
  | cons item rest inductionHypothesis =>
      rw [run_mapM_cons]
      intro result member
      rcases List.mem_cons.mp member with rfl | later
      · exact established item (by simp) generator
      · exact inductionHypothesis (fun item member => established item (by simp [member])) _
          result later

/-- What every drawn list has in its items holds for all lists put together. -/
theorem forall_mem_flatten_run_mapM
    {draw : α → Draw (List β)}
    (holds : β → Prop)
    {items : List α}
    (established : ∀ item ∈ items, ∀ generator, ∀ result ∈ ((draw item).run generator).1,
      holds result)
    (generator : Generator) :
    ∀ result ∈ ((items.mapM draw).run generator).1.flatten, holds result := by
  intro result member
  obtain ⟨drawn, memberDrawn, inDrawn⟩ := List.mem_flatten.mp member
  exact forall_mem_run_mapM (fun drawn => ∀ result ∈ drawn, holds result) established generator
    drawn memberDrawn result inDrawn

/-- Lists drawn for distinct items have distinct labels when put together, if each of them has and
its labels tell the item they are drawn for. -/
theorem nodup_map_flatten_run_mapM
    {draw : α → Draw (List β)}
    {label : β → γ}
    {item : γ → α}
    (labelled : ∀ before generator, ∀ result ∈ ((draw before).run generator).1,
      item (label result) = before)
    (distinct : ∀ before generator, (((draw before).run generator).1.map label).Nodup)
    {items : List α}
    (distinctItems : items.Nodup)
    (generator : Generator) :
    (((items.mapM draw).run generator).1.flatten.map label).Nodup := by
  induction items generalizing generator with
  | nil => simp
  | cons first rest inductionHypothesis =>
      obtain ⟨new, distinctRest⟩ := List.nodup_cons.mp distinctItems
      rw [run_mapM_cons, List.flatten_cons, List.map_append]
      refine List.Nodup.append (distinct first generator) (inductionHypothesis distinctRest _) ?_
      intro _ drawn later
      obtain ⟨result, member, rfl⟩ := List.mem_map.mp drawn
      obtain ⟨other, otherMember, same⟩ := List.mem_map.mp later
      have again : item (label other) ∈ rest :=
        forall_mem_flatten_run_mapM (fun other => item (label other) ∈ rest)
          (fun before inRest generator other drawn =>
            (labelled before generator other drawn).symm ▸ inRest) _ other otherMember
      rw [same, labelled first generator result member] at again
      exact new again

/-- Draws for parts of the items, put back into the items, are the draws for the parts. -/
theorem run_mapM_part
    (part : α → γ)
    (draw : γ → Draw γ)
    (put : α → γ → α)
    (items : List α)
    (generator : Generator) :
    (items.mapM fun item => do
        let drawn ← draw (part item)
        return put item drawn : Draw _).run generator =
      (List.zipWith put items (((items.map part).mapM draw).run generator).1,
        (((items.map part).mapM draw).run generator).2) := by
  induction items generalizing generator with
  | nil => simp
  | cons item rest inductionHypothesis =>
      simp only [List.map_cons, run_mapM_cons, inductionHypothesis]
      rfl

end Neurochip.Draw
