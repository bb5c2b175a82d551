import Mathlib.Data.List.Nodup
import Neurochip.SynapseGroup

namespace Neurochip

/-!
# Marking synapses

Within a step a group records which synapses a spike has reached, each at most
once in the list of touched positions.  The main statements say exactly which
synapses a sequence of events changes, which positions it adds to the touched
ones and in which order, and that the touched ones stay exactly the synapses
with a mark.
-/

/-- Removing repetitions leaves no repetition. -/
theorem nodup_eraseDups [DecidableEq α] (items : List α) : items.eraseDups.Nodup := by
  match items with
  | [] => simp
  | item :: rest =>
      have shorter : (rest.filter fun other => !other == item).length < rest.length + 1 :=
        Nat.lt_succ_of_le (List.length_filter_le _ _)
      rw [List.eraseDups_cons, List.nodup_cons]
      refine ⟨?_, nodup_eraseDups _⟩
      intro member
      simpa using (List.mem_filter.mp (List.mem_eraseDups.mp member)).2
termination_by items.length

namespace Synapse

/-- Something that can happen to a synapse in a step: it leaves a mark, and nothing more when
repeated. -/
structure IsEvent (event : Synapse → Synapse) : Prop where
  repeated : ∀ synapse, event (event synapse) = event synapse
  touches : ∀ synapse, (event synapse).isTouched = true

theorem isEvent_arrive : IsEvent arrive :=
  ⟨fun _ => rfl, fun _ => rfl⟩

theorem isEvent_spike : IsEvent spike :=
  ⟨fun _ => rfl, fun synapse => by simp [isTouched, spike]⟩

end Synapse

namespace SynapseGroup

/-- Whether there is a synapse at a position which has no mark. -/
def isUntouched (synapses : Array Synapse) (position : Nat) : Bool :=
  match synapses[position]? with
  | none => false
  | some synapse => !synapse.isTouched

/-- An event changes the synapses at the given positions, however often each is given. -/
theorem getElem?_markAll
    {event : Synapse → Synapse}
    (isEvent : Synapse.IsEvent event)
    (positions : List Nat)
    (synapses : Array Synapse)
    (touched : Array Nat)
    (position : Nat) :
    (markAll event positions synapses touched).1[position]? =
      if position ∈ positions then synapses[position]?.map event else synapses[position]? := by
  induction positions generalizing synapses touched with
  | nil => simp [markAll]
  | cons first rest inductionHypothesis =>
      unfold markAll
      cases found : synapses[first]? with
      | none =>
          rw [inductionHypothesis]
          by_cases same : position = first
          · subst same
            simp [found]
          · simp [same]
      | some synapse =>
          rw [inductionHypothesis, Array.getElem?_modify]
          by_cases same : position = first
          · subst same
            simp [found, isEvent.repeated]
          · simp [same, Ne.symm same]

/-- An event adds to the touched positions those that had no mark, in order of first mention. -/
theorem toList_markAll
    {event : Synapse → Synapse}
    (isEvent : Synapse.IsEvent event)
    (positions : List Nat)
    (synapses : Array Synapse)
    (touched : Array Nat) :
    (markAll event positions synapses touched).2.toList =
      touched.toList ++ (positions.filter (isUntouched synapses)).eraseDups := by
  induction positions generalizing synapses touched with
  | nil => simp [markAll]
  | cons first rest inductionHypothesis =>
      unfold markAll
      cases found : synapses[first]? with
      | none =>
          have ignored : isUntouched synapses first = false := by simp [isUntouched, found]
          simp [inductionHypothesis, ignored]
      | some synapse =>
          -- From here on the first position counts as touched, and no other one changes.
          have later : ∀ position,
              isUntouched (synapses.modify first event) position =
                (isUntouched synapses position && !position == first) := by
            intro position
            simp only [isUntouched, Array.getElem?_modify]
            by_cases same : first = position
            · subst same
              simp [found, isEvent.touches]
            · cases synapses[position]? <;> simp [same, Ne.symm same]
          simp only [inductionHypothesis, funext later]
          cases marked : synapse.isTouched with
          | true =>
              have ignored : isUntouched synapses first = false := by
                simp [isUntouched, found, marked]
              have unchanged :
                  (fun position => isUntouched synapses position && !position == first) =
                    isUntouched synapses := by
                funext position
                by_cases same : position = first
                · subst same
                  simp [ignored]
                · simp [same]
              simp [unchanged, ignored]
          | false =>
              have added : isUntouched synapses first = true := by
                simp [isUntouched, found, marked]
              rw [if_neg (by simp), Array.toList_push, List.filter_cons_of_pos added,
                List.eraseDups_cons, List.filter_filter, List.append_assoc, List.singleton_append]
              simp only [Bool.and_comm]

/-- The touched positions are those of the synapses with a mark, each given once. -/
structure TouchedExactly (synapses : Array Synapse) (touched : Array Nat) : Prop where
  once : touched.toList.Nodup
  marked : ∀ position, position ∈ touched.toList ↔
    ∃ synapse, synapses[position]? = some synapse ∧ synapse.isTouched = true

theorem touchedExactly_empty
    {synapses : Array Synapse}
    (unmarked : ∀ synapse ∈ synapses, synapse.isTouched = false) :
    TouchedExactly synapses #[] := by
  refine ⟨by simp, fun position => ⟨by simp, ?_⟩⟩
  rintro ⟨synapse, found, marked⟩
  rw [unmarked synapse (Array.mem_of_getElem? found)] at marked
  cases marked

/-- An event keeps the touched positions exact. -/
theorem TouchedExactly.markAll
    {event : Synapse → Synapse}
    (isEvent : Synapse.IsEvent event)
    {synapses : Array Synapse}
    {touched : Array Nat}
    (exactly : TouchedExactly synapses touched)
    (positions : List Nat) :
    TouchedExactly
      (SynapseGroup.markAll event positions synapses touched).1
      (SynapseGroup.markAll event positions synapses touched).2 := by
  constructor
  · rw [toList_markAll isEvent]
    refine exactly.once.append (nodup_eraseDups _) ?_
    intro position old new
    obtain ⟨synapse, found, marked⟩ := (exactly.marked position).mp old
    have untouched := (List.mem_filter.mp (List.mem_eraseDups.mp new)).2
    simp [isUntouched, found, marked] at untouched
  · intro position
    rw [toList_markAll isEvent, List.mem_append, exactly.marked, List.mem_eraseDups,
      List.mem_filter, getElem?_markAll isEvent]
    cases found : synapses[position]? with
    | none => simp [isUntouched, found]
    | some synapse =>
        by_cases mentioned : position ∈ positions
        · cases marked : synapse.isTouched <;>
            simp [isUntouched, found, mentioned, marked, isEvent.touches]
        · simp [mentioned]

/-- A change of the touched synapses reaches each of them once. -/
theorem getElem?_foldl_modify
    (change : Synapse → Synapse)
    {positions : List Nat}
    (once : positions.Nodup)
    (synapses : Array Synapse)
    (position : Nat) :
    (positions.foldl (fun synapses position => synapses.modify position change)
        synapses)[position]? =
      if position ∈ positions then synapses[position]?.map change else synapses[position]? := by
  induction positions generalizing synapses with
  | nil => simp
  | cons first rest inductionHypothesis =>
      obtain ⟨absent, once⟩ := List.nodup_cons.mp once
      rw [List.foldl_cons, inductionHypothesis once, Array.getElem?_modify]
      by_cases same : position = first
      · subst same
        simp [absent]
      · simp [same, Ne.symm same]

/-- A change of the touched synapses that does nothing to the others is a change of all. -/
theorem TouchedExactly.getElem?_foldl_modify
    {synapses : Array Synapse}
    {touched : Array Nat}
    (exactly : TouchedExactly synapses touched)
    {change : Synapse → Synapse}
    (idle : ∀ synapse, synapse.isTouched = false → change synapse = synapse)
    (position : Nat) :
    (touched.toList.foldl (fun synapses position => synapses.modify position change)
        synapses)[position]? =
      synapses[position]?.map change := by
  simp only [SynapseGroup.getElem?_foldl_modify change exactly.once, exactly.marked]
  cases found : synapses[position]? with
  | none => simp
  | some synapse =>
      cases marked : synapse.isTouched with
      | true => simp [marked]
      | false => simp [marked, idle synapse marked]

end SynapseGroup

end Neurochip
