import Mathlib.Data.List.Perm.Subperm
import Neurochip.Proofs.Partition.Ranges

namespace Neurochip

/-!
# Workers in any order

Workers change items in place, each item of their range in turn, while further
workers may still be waiting for theirs.  Nothing is known of the order of their
moves.  As the ranges follow each other, no item is ever visited twice, whoever
moves; and when all workers are done, all items have been visited.  The main
statement says that every order of moves therefore ends with what a single loop
over the items would have made of them.
-/

namespace Partition

variable {α : Type}

/-- Items and the workers that change them. -/
structure Crew (α : Type) where
  items : List α
  /-- The number of workers there will be. -/
  total : Nat
  /-- For each worker the positions that it has still to visit: the next one, and the end. -/
  shares : List (Nat × Nat) := []
  /-- The number of items that have been dealt out. -/
  dealt : Nat := 0
  /-- The positions that have been visited, in order. -/
  visited : List Nat := []
  deriving Repr, DecidableEq

/-- What may happen next: another worker gets its share, or a worker visits its next item. -/
inductive Move where
  | deal
  | visit (worker : Nat)
  deriving Repr, DecidableEq

namespace Crew

/-- The workers for some items.  A single one has them all at once, as nobody is waiting. -/
def start (workers : Nat) (items : List α) : Crew α :=
  let total := min workers items.length
  if total ≤ 1 then
    { items := items, total := 1, shares := [(0, items.length)], dealt := items.length }
  else
    { items := items, total := total }

/-- One move.  Nothing happens if there is no such worker, or nothing left for it to do. -/
def perform (change : α → α) (crew : Crew α) : Move → Except Failure (Crew α)
  | .deal =>
      if crew.shares.length < crew.total then do
        let (first, stop) ← rangeGuarded crew.total crew.shares.length crew.items.length
        let (share, _) ← Guard.splitAt (stop - first) (crew.items.drop crew.dealt)
        return { crew with
          shares := crew.shares ++ [(crew.dealt, crew.dealt + share.length)]
          dealt := crew.dealt + share.length }
      else
        return crew
  | .visit worker =>
      match crew.shares[worker]? with
      | none => return crew
      | some (next, stop) =>
          if next < stop then do
            let item ← Guard.itemAt crew.items next
            return { crew with
              items := crew.items.set next (change item)
              shares := crew.shares.set worker (next + 1, stop)
              visited := crew.visited ++ [next] }
          else
            return crew

/-- Several moves, one after the other. -/
def performAll (change : α → α) (crew : Crew α) (moves : List Move) : Except Failure (Crew α) :=
  moves.foldlM (perform change) crew

/-- All workers have got a share, and have nothing left to do. -/
def Finished (crew : Crew α) : Prop :=
  crew.shares.length = crew.total ∧ ∀ share ∈ crew.shares, share.1 = share.2

/-- Workers on their way through their ranges: the items that have been visited are changed, and the
others are as they were. -/
structure OnTheWay (change : α → α) (before : List α) (crew : Crew α) : Prop where
  positive : 0 < crew.total
  enough : crew.shares.length ≤ crew.total
  length : crew.items.length = before.length
  dealt : crew.dealt = Partition.start crew.total crew.shares.length before.length
  share : ∀ worker next stop, crew.shares[worker]? = some (next, stop) →
    Partition.start crew.total worker before.length ≤ next ∧ next ≤ stop ∧
      stop = Partition.start crew.total (worker + 1) before.length
  visited_iff : ∀ position, position ∈ crew.visited ↔
    ∃ worker next stop, crew.shares[worker]? = some (next, stop) ∧
      Partition.start crew.total worker before.length ≤ position ∧ position < next
  once : crew.visited.Nodup
  items : ∀ position, crew.items[position]? =
    if position ∈ crew.visited then before[position]?.map change else before[position]?

variable {change : α → α} {before : List α} {crew : Crew α}

theorem onTheWay_start (change : α → α) (workers : Nat) (items : List α) :
    OnTheWay change items (start workers items) := by
  unfold start
  dsimp only
  split
  · have all : Partition.start 1 1 items.length = items.length :=
      start_workers items.length (by decide)
    have single : ∀ worker next stop,
        [((0 : Nat), items.length)][worker]? = some (next, stop) →
          worker = 0 ∧ next = 0 ∧ stop = items.length := by
      intro worker next stop found
      cases worker with
      | zero => simpa [eq_comm] using found
      | succ worker => cases found
    refine ⟨Nat.one_pos, le_refl 1, rfl, all.symm, ?_, ?_, by simp, by simp⟩
    · intro worker next stop found
      obtain ⟨rfl, rfl, rfl⟩ := single worker next stop found
      exact ⟨(start_zero _ _).le, Nat.zero_le _, all.symm⟩
    · intro position
      refine iff_of_false (by simp) ?_
      rintro ⟨worker, next, stop, found, _, early⟩
      obtain ⟨_, rfl, _⟩ := single worker next stop found
      exact Nat.not_lt_zero _ early
  · rename_i several
    exact ⟨by dsimp only; omega, by simp, rfl, (start_zero _ _).symm, by simp, by simp, by simp,
      by simp⟩

namespace OnTheWay

/-- A worker that gets its share gets the next range of the items. -/
theorem perform_deal
    (onTheWay : OnTheWay change before crew)
    (waiting : crew.shares.length < crew.total) :
    crew.perform change .deal = .ok { crew with
      shares := crew.shares ++ [range crew.total crew.shares.length before.length]
      dealt := Partition.start crew.total (crew.shares.length + 1) before.length } := by
  have ordered := start_le_start_succ crew.total crew.shares.length before.length
  have inside : Partition.start crew.total (crew.shares.length + 1) before.length ≤ before.length :=
    start_le before.length waiting
  have enough : Partition.start crew.total (crew.shares.length + 1) before.length -
      Partition.start crew.total crew.shares.length before.length ≤
        (crew.items.drop crew.dealt).length := by
    rw [List.length_drop, onTheWay.length, onTheWay.dealt]
    omega
  unfold perform
  dsimp only
  rw [if_pos waiting, onTheWay.length,
    bind_of_eq_ok (rangeGuarded_eq onTheWay.positive _ _)]
  unfold range
  dsimp only
  rw [bind_of_eq_ok (Guard.splitAt_of_le enough), List.length_take, Nat.min_eq_left enough,
    onTheWay.dealt, Nat.add_sub_cancel' ordered]
  rfl

/-- Getting a share keeps the workers on their way. -/
theorem deal
    (onTheWay : OnTheWay change before crew)
    (waiting : crew.shares.length < crew.total) :
    OnTheWay change before { crew with
      shares := crew.shares ++ [range crew.total crew.shares.length before.length]
      dealt := Partition.start crew.total (crew.shares.length + 1) before.length } := by
  have cases : ∀ worker next stop,
      (crew.shares ++ [range crew.total crew.shares.length before.length])[worker]? =
        some (next, stop) →
      crew.shares[worker]? = some (next, stop) ∨
        worker = crew.shares.length ∧
          (next, stop) = range crew.total crew.shares.length before.length := by
    intro worker next stop found
    rcases Nat.lt_trichotomy worker crew.shares.length with old | rfl | beyond
    · rw [List.getElem?_append_left old] at found
      exact .inl found
    · rw [List.getElem?_concat_length] at found
      exact .inr ⟨rfl, (Option.some.inj found).symm⟩
    · rw [List.getElem?_eq_none (by simp; omega)] at found
      cases found
  refine
    { onTheWay with
      enough := by
        rw [List.length_append]
        exact waiting
      dealt := by simp
      share := ?_
      visited_iff := ?_ }
  · intro worker next stop found
    rcases cases worker next stop found with old | ⟨rfl, new⟩
    · exact onTheWay.share worker next stop old
    · obtain ⟨rfl, rfl⟩ := Prod.mk.inj new
      exact ⟨le_refl _, start_le_start_succ _ _ _, rfl⟩
  · intro position
    rw [onTheWay.visited_iff]
    constructor
    · rintro ⟨worker, next, stop, found, inside⟩
      have old := (List.getElem?_eq_some_iff.mp found).1
      exact ⟨worker, next, stop, (List.getElem?_append_left old).trans found, inside⟩
    · rintro ⟨worker, next, stop, found, late, early⟩
      rcases cases worker next stop found with old | ⟨rfl, new⟩
      · exact ⟨worker, next, stop, old, late, early⟩
      · -- The new worker has not visited anything.
        obtain ⟨rfl, rfl⟩ := Prod.mk.inj new
        exact absurd early (Nat.not_lt.mpr late)

/-- A worker that has something left to do visits an item that is there. -/
theorem exists_item
    (onTheWay : OnTheWay change before crew)
    {worker next stop : Nat}
    (found : crew.shares[worker]? = some (next, stop))
    (busy : next < stop) :
    next < before.length := by
  obtain ⟨_, _, rfl⟩ := onTheWay.share worker next stop found
  have present := (List.getElem?_eq_some_iff.mp found).1
  have inside : Partition.start crew.total (worker + 1) before.length ≤ before.length :=
    start_le before.length (Nat.lt_of_lt_of_le present onTheWay.enough)
  omega

/-- A position that a worker has still to visit is in no other worker's range. -/
theorem not_visited
    (onTheWay : OnTheWay change before crew)
    {worker next stop : Nat}
    (found : crew.shares[worker]? = some (next, stop))
    (busy : next < stop) :
    next ∉ crew.visited := by
  intro visited
  obtain ⟨other, otherNext, otherStop, otherFound, late, early⟩ :=
    (onTheWay.visited_iff next).mp visited
  obtain ⟨started, _, rfl⟩ := onTheWay.share worker next stop found
  obtain ⟨_, notOver, rfl⟩ := onTheWay.share other otherNext otherStop otherFound
  obtain rfl := worker_eq_of_inside ⟨started, busy⟩ ⟨late, by omega⟩
  have same := Option.some.inj (found.symm.trans otherFound)
  obtain ⟨rfl, _⟩ := Prod.mk.inj same
  exact Nat.lt_irrefl _ early

/-- A worker that has something left to do changes its next item. -/
theorem perform_visit
    (onTheWay : OnTheWay change before crew)
    {worker next stop : Nat}
    (found : crew.shares[worker]? = some (next, stop))
    (busy : next < stop) :
    crew.perform change (.visit worker) = .ok { crew with
      items := crew.items.modify next change
      shares := crew.shares.set worker (next + 1, stop)
      visited := crew.visited ++ [next] } := by
  have inside : next < crew.items.length := onTheWay.length ▸ onTheWay.exists_item found busy
  have item := List.getElem?_eq_getElem inside
  unfold perform
  dsimp only
  rw [found]
  dsimp only
  rw [if_pos busy, bind_of_eq_ok (Guard.itemAt_of_some item), Guard.set_eq_modify item]
  rfl

/-- Visiting an item keeps the workers on their way. -/
theorem visit
    (onTheWay : OnTheWay change before crew)
    {worker next stop : Nat}
    (found : crew.shares[worker]? = some (next, stop))
    (busy : next < stop) :
    OnTheWay change before { crew with
      items := crew.items.modify next change
      shares := crew.shares.set worker (next + 1, stop)
      visited := crew.visited ++ [next] } := by
  have present := (List.getElem?_eq_some_iff.mp found).1
  have fresh := onTheWay.not_visited found busy
  have own := onTheWay.share worker next stop found
  have cases : ∀ other otherNext otherStop,
      (crew.shares.set worker (next + 1, stop))[other]? = some (otherNext, otherStop) →
      other = worker ∧ otherNext = next + 1 ∧ otherStop = stop ∨
        crew.shares[other]? = some (otherNext, otherStop) := by
    intro other otherNext otherStop otherFound
    rw [List.getElem?_set] at otherFound
    split at otherFound
    · rename_i same
      obtain ⟨rfl, rfl⟩ := Prod.mk.inj (Option.some.inj otherFound)
      exact .inl ⟨same.symm, rfl, rfl⟩
    · exact .inr otherFound
  refine
    { onTheWay with
      enough := by simpa using onTheWay.enough
      length := by simpa using onTheWay.length
      dealt := by simpa using onTheWay.dealt
      share := ?_
      visited_iff := ?_
      once := List.nodup_append.mpr ⟨onTheWay.once, by simp, ?_⟩
      items := ?_ }
  · intro other otherNext otherStop otherFound
    rcases cases other otherNext otherStop otherFound with ⟨rfl, rfl, rfl⟩ | old
    · exact ⟨own.1.trans (Nat.le_succ next), busy, own.2.2⟩
    · exact onTheWay.share other otherNext otherStop old
  · intro position
    rw [List.mem_append, List.mem_singleton, onTheWay.visited_iff]
    constructor
    · rintro (⟨other, otherNext, otherStop, otherFound, late, early⟩ | rfl)
      · by_cases same : worker = other
        · subst same
          obtain ⟨rfl, rfl⟩ := Prod.mk.inj (Option.some.inj (found.symm.trans otherFound))
          exact ⟨worker, next + 1, stop, by simp [present], late, by omega⟩
        · exact ⟨other, otherNext, otherStop, by simpa [same] using otherFound, late, early⟩
      · exact ⟨worker, position + 1, stop, by simp [present], own.1, Nat.lt_succ_self _⟩
    · rintro ⟨other, otherNext, otherStop, otherFound, late, early⟩
      rcases cases other otherNext otherStop otherFound with ⟨rfl, rfl, rfl⟩ | old
      · rcases Nat.lt_succ_iff_lt_or_eq.mp early with before | here
        · exact .inl ⟨other, next, otherStop, found, late, before⟩
        · exact .inr here
      · exact .inl ⟨other, otherNext, otherStop, old, late, early⟩
  · intro position member other same
    rw [List.mem_singleton] at same
    rintro rfl
    exact fresh (same ▸ member)
  · intro position
    rw [List.getElem?_modify, onTheWay.items]
    by_cases here : next = position
    · subst here
      simp [fresh]
    · simp [here, Ne.symm here]

/-- Whatever move comes next, it is possible, and the workers stay on their way. -/
theorem exists_perform
    (onTheWay : OnTheWay change before crew)
    (move : Move) :
    ∃ after, crew.perform change move = .ok after ∧ OnTheWay change before after := by
  cases move with
  | deal =>
      by_cases waiting : crew.shares.length < crew.total
      · exact ⟨_, onTheWay.perform_deal waiting, onTheWay.deal waiting⟩
      · exact ⟨crew, if_neg waiting, onTheWay⟩
  | visit worker =>
      cases found : crew.shares[worker]? with
      | none => exact ⟨crew, by rw [perform, found]; rfl, onTheWay⟩
      | some share =>
          obtain ⟨next, stop⟩ := share
          by_cases busy : next < stop
          · exact ⟨_, onTheWay.perform_visit found busy, onTheWay.visit found busy⟩
          · refine ⟨crew, ?_, onTheWay⟩
            rw [perform, found]
            exact if_neg busy

/-- Whatever moves come next, they are possible, and the workers stay on their way. -/
theorem exists_performAll
    (onTheWay : OnTheWay change before crew)
    (moves : List Move) :
    ∃ after, crew.performAll change moves = .ok after ∧ OnTheWay change before after := by
  induction moves generalizing crew with
  | nil => exact ⟨crew, rfl, onTheWay⟩
  | cons move rest inductionHypothesis =>
      obtain ⟨next, moved, onTheWayNext⟩ := onTheWay.exists_perform move
      obtain ⟨after, reached, onTheWayAfter⟩ := inductionHypothesis onTheWayNext
      refine ⟨after, ?_, onTheWayAfter⟩
      rw [performAll, List.foldlM_cons, bind_of_eq_ok moved]
      exact reached

theorem lt_of_visited
    (onTheWay : OnTheWay change before crew)
    {position : Nat}
    (visited : position ∈ crew.visited) :
    position < before.length := by
  obtain ⟨worker, next, stop, found, _, early⟩ := (onTheWay.visited_iff position).mp visited
  obtain ⟨_, notOver, rfl⟩ := onTheWay.share worker next stop found
  have present := (List.getElem?_eq_some_iff.mp found).1
  have inside : Partition.start crew.total (worker + 1) before.length ≤ before.length :=
    start_le before.length (Nat.lt_of_lt_of_le present onTheWay.enough)
  omega

theorem length_visited_le (onTheWay : OnTheWay change before crew) :
    crew.visited.length ≤ before.length := by
  have subset : crew.visited ⊆ List.range before.length :=
    fun _ visited => List.mem_range.mpr (onTheWay.lt_of_visited visited)
  simpa using (List.subperm_of_subset onTheWay.once subset).length_le

/-- Workers that are done have visited every item. -/
theorem visited_of_finished
    (onTheWay : OnTheWay change before crew)
    (finished : crew.Finished)
    {position : Nat}
    (inside : position < before.length) :
    position ∈ crew.visited := by
  obtain ⟨all, done⟩ := finished
  have covered : position < Partition.start crew.total crew.total before.length := by
    rwa [start_workers before.length onTheWay.positive]
  obtain ⟨worker, present, late, early⟩ := exists_worker_inside covered
  rw [← all] at present
  obtain ⟨⟨next, stop⟩, found⟩ : ∃ share, crew.shares[worker]? = some share :=
    ⟨_, List.getElem?_eq_getElem present⟩
  have same : next = stop := done (next, stop) (List.mem_of_getElem? found)
  obtain ⟨_, _, rfl⟩ := onTheWay.share worker next stop found
  exact (onTheWay.visited_iff position).mpr ⟨worker, next, _, found, late, same ▸ early⟩

theorem items_of_finished
    (onTheWay : OnTheWay change before crew)
    (finished : crew.Finished) :
    crew.items = before.map change := by
  apply List.ext_getElem?
  intro position
  rw [onTheWay.items, List.getElem?_map]
  split
  · rfl
  · rename_i notVisited
    have outside : before.length ≤ position := by
      by_contra inside
      exact notVisited (onTheWay.visited_of_finished finished (Nat.lt_of_not_le inside))
    rw [List.getElem?_eq_none outside]
    rfl

theorem visited_perm_of_finished
    (onTheWay : OnTheWay change before crew)
    (finished : crew.Finished) :
    crew.visited.Perm (List.range before.length) := by
  rw [List.perm_ext_iff_of_nodup onTheWay.once List.nodup_range]
  intro position
  rw [List.mem_range]
  exact ⟨onTheWay.lt_of_visited, onTheWay.visited_of_finished finished⟩

/-- As long as the workers are not done, some move brings them nearer to the end. -/
theorem exists_progress
    (onTheWay : OnTheWay change before crew)
    (unfinished : ¬ crew.Finished) :
    ∃ move after, crew.perform change move = .ok after ∧ OnTheWay change before after ∧
      (after.total - after.shares.length) + (before.length - after.visited.length) <
        (crew.total - crew.shares.length) + (before.length - crew.visited.length) := by
  by_cases waiting : crew.shares.length < crew.total
  · refine ⟨.deal, _, onTheWay.perform_deal waiting, onTheWay.deal waiting, ?_⟩
    simp only [List.length_append, List.length_singleton]
    omega
  · -- Nobody waits for a share, so somebody has not finished one.
    have all : crew.shares.length = crew.total :=
      Nat.le_antisymm onTheWay.enough (Nat.not_lt.mp waiting)
    have : ∃ share ∈ crew.shares, share.1 ≠ share.2 := by
      by_contra none
      push Not at none
      exact unfinished ⟨all, none⟩
    obtain ⟨⟨next, stop⟩, member, different⟩ := this
    obtain ⟨worker, found⟩ := List.mem_iff_getElem?.mp member
    have notOver := (onTheWay.share worker next stop found).2.1
    have busy : next < stop := Nat.lt_of_le_of_ne notOver different
    have onTheWayAfter := onTheWay.visit found busy
    refine ⟨.visit worker, _, onTheWay.perform_visit found busy, onTheWayAfter, ?_⟩
    have room := onTheWayAfter.length_visited_le
    simp only [List.length_append, List.length_singleton, List.length_set] at room ⊢
    omega

/-- From wherever they are, some moves bring the workers to the end. -/
theorem exists_finished
    (onTheWay : OnTheWay change before crew) :
    ∃ moves after, crew.performAll change moves = .ok after ∧ after.Finished := by
  generalize measure : (crew.total - crew.shares.length) +
    (before.length - crew.visited.length) = remaining
  induction remaining using Nat.strong_induction_on generalizing crew with
  | _ remaining inductionHypothesis =>
      by_cases finished : crew.Finished
      · exact ⟨[], crew, rfl, finished⟩
      · obtain ⟨move, next, moved, onTheWayNext, nearer⟩ := onTheWay.exists_progress finished
        obtain ⟨moves, after, reached, done⟩ :=
          inductionHypothesis _ (measure ▸ nearer) onTheWayNext rfl
        refine ⟨move :: moves, after, ?_, done⟩
        rw [performAll, List.foldlM_cons, bind_of_eq_ok moved]
        exact reached

end OnTheWay

end Crew

/-- What it means that workers change every item once, whatever the order of their moves. -/
structure ChangesOnce (workers : Nat) (change : α → α) (items : List α) : Prop where
  inTurn : map workers change items = items.map change
  neverFails : ∀ moves, ∃ crew, (Crew.start workers items).performAll change moves = .ok crew
  onTheWay : ∀ moves crew, (Crew.start workers items).performAll change moves = .ok crew →
    crew.visited.Nodup ∧
      ∀ position, crew.items[position]? =
        if position ∈ crew.visited then items[position]?.map change else items[position]?
  inTheEnd : ∀ moves crew, (Crew.start workers items).performAll change moves = .ok crew →
    crew.Finished →
      crew.items = items.map change ∧ crew.visited.Perm (List.range items.length)
  ends : ∀ moves crew, (Crew.start workers items).performAll change moves = .ok crew →
    ∃ more last, crew.performAll change more = .ok last ∧ last.Finished

theorem changesOnce (workers : Nat) (change : α → α) (items : List α) :
    ChangesOnce workers change items := by
  have started := Crew.onTheWay_start change workers items
  have reached : ∀ moves crew, (Crew.start workers items).performAll change moves = .ok crew →
      Crew.OnTheWay change items crew := by
    intro moves crew performed
    obtain ⟨_, same, onTheWay⟩ := started.exists_performAll moves
    rwa [Except.ok.inj (same.symm.trans performed)] at onTheWay
  exact
    { inTurn := map_eq_map workers change items
      neverFails := fun moves =>
        let ⟨crew, performed, _⟩ := started.exists_performAll moves
        ⟨crew, performed⟩
      onTheWay := fun moves crew performed =>
        let onTheWay := reached moves crew performed
        ⟨onTheWay.once, onTheWay.items⟩
      inTheEnd := fun moves crew performed finished =>
        let onTheWay := reached moves crew performed
        ⟨onTheWay.items_of_finished finished, onTheWay.visited_perm_of_finished finished⟩
      ends := fun moves crew performed => (reached moves crew performed).exists_finished }

/-- The ranges of any positive number of workers follow each other from the first item to the last,
the longer ones first, and are found in words of 64 bits.  Workers that change the items of their
ranges in place change every item once, in whatever order they move, and end with what a single loop
makes of the items. -/
theorem ranges_tile_and_workers_change_once :
    (∀ workers items, 0 < workers → Tiles workers items) ∧
      ∀ (α : Type) workers (change : α → α) items, ChangesOnce workers change items :=
  ⟨fun _ items positive => tiles positive items, fun _ => changesOnce⟩

/-- Three workers for eleven items, and for as many as there are signed words; and two workers that
take turns while one of them has been waiting for its share. -/
theorem ranges_tile_and_workers_change_once_in_turns :
    0 < 3 ∧
      size 3 2 11 ≤ size 3 0 11 ∧ size 3 0 11 ≤ size 3 2 11 + 1 ∧
      rangeInWords 3 2 9223372036854775807 =
        .ok (6148914691236517205, 9223372036854775807) ∧
      ∃ crew,
        (Crew.start 2 [10, 20, 30]).performAll (· + 1)
          [.deal, .visit 0, .deal, .visit 1, .visit 0] = .ok crew ∧
        crew.Finished ∧
        crew.items = [11, 21, 31] ∧
        crew.visited.Perm [0, 1, 2] := by
  have eleven := ranges_tile_and_workers_change_once.1 3 11 (by decide)
  have words := ranges_tile_and_workers_change_once.1 3 9223372036854775807 (by decide)
  have turns := ranges_tile_and_workers_change_once.2 Nat 2 (· + 1) [10, 20, 30]
  let crew : Crew Nat :=
    { items := [11, 21, 31], total := 2, shares := [(2, 2), (3, 3)], dealt := 3,
      visited := [0, 2, 1] }
  have performed : (Crew.start 2 [10, 20, 30]).performAll (· + 1)
      [.deal, .visit 0, .deal, .visit 1, .visit 0] = .ok crew := rfl
  have finished : crew.Finished := ⟨rfl, by decide⟩
  obtain ⟨items, visited⟩ := turns.inTheEnd _ crew performed finished
  exact ⟨by decide, (eleven.longerFirst 0 2 (by decide)).1, (eleven.longerFirst 0 2 (by decide)).2,
    words.inWords (by decide) 2 (by decide), crew, performed, finished, items, visited⟩

end Partition

end Neurochip
