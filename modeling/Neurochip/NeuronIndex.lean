import Std.Data.HashMap

namespace Neurochip

/-!
# Looking up synapses by neuron

A synapse group finds the synapses of a spiking neuron in an index that is
built once from the list of neurons, one per synapse.  The main statement says
that looking up a neuron answers exactly its positions in that list, in order.
-/

/-- The positions at which each neuron occurs in a list. -/
structure NeuronIndex where
  table : Std.HashMap Nat (List Nat)

namespace NeuronIndex

/-- The positions of a neuron in a list. -/
def positions (neuron : Nat) (neurons : List Nat) : List Nat :=
  (neurons.zipIdx.filter (·.1 == neuron)).map (·.2)

/-- The table with one more position in front of those of a neuron. -/
def insertFirst
    (entry : Nat × Nat)
    (table : Std.HashMap Nat (List Nat)) :
    Std.HashMap Nat (List Nat) :=
  table.insert entry.1 (entry.2 :: table.getD entry.1 [])

/-- The index of a list of neurons. -/
def ofNeurons (neurons : List Nat) : NeuronIndex :=
  ⟨neurons.zipIdx.foldr insertFirst {}⟩

/-- The positions of a neuron according to the index. -/
def lookup (index : NeuronIndex) (neuron : Nat) : List Nat :=
  index.table.getD neuron []

/-- A table filled from the back answers the positions of the filled entries. -/
private theorem getD_foldr_insertFirst (neuron : Nat) (entries : List (Nat × Nat)) :
    (entries.foldr insertFirst ({} : Std.HashMap Nat (List Nat))).getD neuron [] =
      (entries.filter (·.1 == neuron)).map (·.2) := by
  induction entries with
  | nil => simp
  | cons entry rest inductionHypothesis =>
      obtain ⟨key, position⟩ := entry
      rw [List.foldr_cons, insertFirst, Std.HashMap.getD_insert]
      by_cases same : key = neuron
      · subst same
        simp [inductionHypothesis]
      · simp [same, inductionHypothesis]

/-- Looking up a neuron answers its positions in the list, in order. -/
theorem lookup_ofNeurons (neuron : Nat) (neurons : List Nat) :
    (ofNeurons neurons).lookup neuron = positions neuron neurons :=
  getD_foldr_insertFirst neuron neurons.zipIdx

end NeuronIndex

end Neurochip
