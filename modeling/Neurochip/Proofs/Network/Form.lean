import Neurochip.Network.Form
import Neurochip.Proofs.Params.Form

namespace Neurochip

/-!
# Saved data is read back

A saved state has no fields that may be left out, but other fields are ignored in
it.  The main result is about all data that is saved: states and descriptions are
read as they have been written, a description with some fields left out is read
with the defaults of these fields, and it is refused with any other field added.
-/

open Json (Codec Field Record)

namespace Traces

/-- Whether the registers fit the words that they are written as. -/
def InWords (traces : Traces) : Prop :=
  ∀ channel, Bounds.int32.Contains (traces.get channel)

theorem lawful_valuesForm : valuesForm.Lawful false [] InWords (fun _ traces => traces) := by
  refine Codec.lawful_of_flat (fun traces => ?_) fun traces words => ?_
  · refine Json.flat_arr fun item member => ?_
    obtain ⟨value, _, rfl⟩ := List.mem_map.mp member
    exact Json.flat_int value
  · have fits : ∀ value ∈ traces.toList, Bounds.int32.Contains value := by
      simp only [Channels.toList, List.forall_mem_cons]
      exact ⟨words .x1, words .x2, words .y1, words .y2, words .y3, fun _ none => nomatch none⟩
    have read : (traces.toList.map Json.int).mapM Codec.signed32.read = .ok traces.toList :=
      (@Codec.lawful_integer false [] "i32" Bounds.int32).list_whole.read_write fits
    have all : (traces.toList.map Json.int).take 5 = traces.toList.map Json.int := rfl
    show valuesForm.read (.arr (traces.toList.map Json.int)) = _
    simp only [valuesForm, all, read]
    rfl

theorem lawful_record : record.codec.Lawful false [] InWords (fun _ traces => traces) := by
  have regular : record.Regular false [] InWords _ :=
    { fields :=
        .cons (Field.takes_mandatory lawful_valuesForm (fun _ words => words) List.not_mem_nil) .nil
      distinct := by decide
      independent := by simp
      policy := rfl
      several := by decide }
  exact regular.lawful (fun _ _ => rfl) fun _ => rfl

end Traces

namespace NeuronState

/-- Whether the numbers fit the words that they are written as. -/
structure InWords (state : NeuronState) : Prop where
  voltage : Bounds.int32.Contains state.voltage
  current : Bounds.int32.Contains state.current
  refractory : state.refractory < 2 ^ 8

theorem lawful_record : record.codec.Lawful false [] InWords (fun _ state => state) := by
  have regular : record.Regular false [] InWords _ :=
    { fields :=
        .cons (Field.takes_mandatory (Codec.lawful_integer _ _)
          (fun _ words => words.voltage) List.not_mem_nil) <|
        .cons (Field.takes_mandatory (Codec.lawful_integer _ _)
          (fun _ words => words.current) List.not_mem_nil) <|
        .cons (Field.takes_mandatory Codec.lawful_unsigned8
          (fun _ words => words.refractory) List.not_mem_nil) .nil
      distinct := by decide
      independent := by simp [Record.Independent, Field.taking]
      policy := rfl
      several := by decide }
  exact regular.lawful (fun _ _ => rfl) fun _ => rfl

end NeuronState

namespace SynapseState

/-- Whether the numbers fit the words that they are written as. -/
structure InWords (state : SynapseState) : Prop where
  pre : state.pre < 2 ^ 64
  post : state.post < 2 ^ 64
  mantissa : Bounds.int32.Contains state.mantissa
  actual : Bounds.int32.Contains state.actual
  traces : state.traces.InWords

theorem lawful_record : record.codec.Lawful false [] InWords (fun _ state => state) := by
  have regular : record.Regular false [] InWords _ :=
    { fields :=
        .cons (Field.takes_mandatory Codec.lawful_size
          (fun _ words => words.pre) List.not_mem_nil) <|
        .cons (Field.takes_mandatory Codec.lawful_size
          (fun _ words => words.post) List.not_mem_nil) <|
        .cons (Field.takes_mandatory (Codec.lawful_integer _ _)
          (fun _ words => words.mantissa) List.not_mem_nil) <|
        .cons (Field.takes_mandatory (Codec.lawful_integer _ _)
          (fun _ words => words.actual) List.not_mem_nil) <|
        .cons (Field.takes_mandatory Traces.lawful_record
          (fun _ words => words.traces) List.not_mem_nil) .nil
      distinct := by decide
      independent := by simp [Record.Independent, Field.taking]
      policy := rfl
      several := by decide }
  exact regular.lawful (fun _ _ => rfl) fun _ => rfl

end SynapseState

namespace Snapshot

/-- Whether the numbers fit the words that they are written as. -/
structure InWords (snapshot : Snapshot) : Prop where
  neuronGroups : ∀ states ∈ snapshot.neuronGroups, ∀ state ∈ states, state.InWords
  synapseGroups : ∀ states ∈ snapshot.synapseGroups, ∀ state ∈ states, state.InWords

theorem lawful_record : record.codec.Lawful false [] InWords (fun _ snapshot => snapshot) := by
  have regular : record.Regular false [] InWords _ :=
    { fields :=
        .cons (Field.takes_mandatory NeuronState.lawful_record.list_whole.list_whole
          (fun _ words => words.neuronGroups) List.not_mem_nil) <|
        .cons (Field.takes_mandatory SynapseState.lawful_record.list_whole.list_whole
          (fun _ words => words.synapseGroups) List.not_mem_nil) .nil
      distinct := by decide
      independent := by simp [Record.Independent, Field.taking]
      policy := rfl
      several := by decide }
  exact regular.lawful (fun _ _ => rfl) fun _ => rfl

end Snapshot

/-- What is saved is read back.  Any fields of a description that have a default can be left out, and
then they are read as their defaults while nothing else changes.  No field can be added to any of its
objects. -/
theorem saved_data_read_back :
    (∀ snapshot : Snapshot, snapshot.InWords →
      Snapshot.record.read (Snapshot.record.write snapshot) = .ok snapshot) ∧
    ∀ params : NetworkParams, params.InWords →
      NetworkParams.record.read (NetworkParams.record.write params) = .ok params ∧
      (∀ omitted : Places, omitted.OnlyFields NetworkParams.optionalFields →
        NetworkParams.record.read ((NetworkParams.record.write params).without omitted) =
          .ok (params.withDefaults omitted)) ∧
      ∀ place before after key added,
        (NetworkParams.record.write params).at? place = some (.obj (before ++ after)) →
        key ∉ (before ++ after).map Prod.fst →
        NetworkParams.record.read ((NetworkParams.record.write params).replacing place
            (.obj (before ++ (key, added) :: after))) =
          .error (Json.refusal key (before ++ after)) := by
  refine ⟨fun snapshot words => Snapshot.lawful_record.read_write words, fun params words => ?_⟩
  have lawful := NetworkParams.lawful_record
  refine ⟨lawful.read_write words, fun omitted => lawful.read_without params omitted words, ?_⟩
  intro place before after key added found unknown
  exact lawful.read_extended params place before after key added words found unknown

/-- A neuron and a synapse with numbers at the ends of their words. -/
def Snapshot.atLimits : Snapshot where
  neuronGroups := [[{ voltage := -2147483648, current := 2147483647, refractory := 255 }], []]
  synapseGroups :=
    [[{ pre := 18446744073709551615
        post := 0
        mantissa := -2147483648
        actual := 2147483647
        traces := ⟨0, 127, -1, -2147483648, 2147483647⟩ }]]

theorem Snapshot.inWords_atLimits : Snapshot.atLimits.InWords where
  neuronGroups := by
    simp only [Snapshot.atLimits, List.forall_mem_cons]
    exact ⟨⟨⟨by decide, by decide, by decide⟩, nofun⟩, nofun, nofun⟩
  synapseGroups := by
    have traces : Traces.InWords ⟨0, 127, -1, -2147483648, 2147483647⟩ := by
      rintro (_ | _) <;> decide
    simp only [Snapshot.atLimits, List.forall_mem_cons]
    exact ⟨⟨⟨by decide, by decide, by decide, by decide, traces⟩, nofun⟩, nofun⟩

/-- A description with numbers at the ends of their words. -/
def NetworkParams.atLimits : NetworkParams where
  neuronGroups :=
    [{ size := 18446744073709551615, neuron := { refractoryPeriod := 255, decayCurrent := 65535 } }]
  spikeSources := [{ size := 1, indices := [0], times := [18446744073709551615], sorted := true }]
  synapseGroups :=
    [{ source := .spikeSource 18446744073709551615
       target := 0
       connections := [{ pre := 0, post := 1, weight := -2147483648 }]
       synapse := { learningRule := "Δw = x1 ⋅ y1", weightExponent := -128, signMode := .mixed } }]
  technical := { seed := 18446744073709551615, rounding := .towardZero }

theorem NetworkParams.inWords_atLimits : NetworkParams.atLimits.InWords where
  neuronGroups := List.forall_mem_singleton.mpr
    ⟨by decide, ⟨by decide, by decide, by decide, by decide⟩⟩
  spikeSources := List.forall_mem_singleton.mpr
    ⟨by decide, by simp, by simp, by decide⟩
  synapseGroups := by
    have source : (SourceRef.spikeSource 18446744073709551615).InWords := by
      show 18446744073709551615 < 2 ^ 64
      decide
    have connection : ({ pre := 0, post := 1, weight := -2147483648 } : Connection).InWords :=
      ⟨by decide, by decide, by decide⟩
    have trace : ({} : TraceParams).InWords :=
      ⟨by decide, by decide⟩
    refine List.forall_mem_singleton.mpr ⟨source, by decide,
      List.forall_mem_singleton.mpr connection, ⟨by decide, by decide, by decide, ?_⟩⟩
    rintro (_ | _) <;> exact trace
  technical := ⟨by decide, by decide⟩

/-- The description with numbers at the ends of their words is read as it has been written, also
without its weights, but not with another parameter for its neurons. -/
theorem saved_data_read_back_atLimits :
    Snapshot.record.read (Snapshot.record.write .atLimits) = .ok .atLimits ∧
    NetworkParams.record.read (NetworkParams.record.write .atLimits) = .ok .atLimits ∧
    NetworkParams.record.read ((NetworkParams.record.write .atLimits).without
        fun path => path.getLast? = some (.field "weight")) =
      .ok { NetworkParams.atLimits with
        synapseGroups := NetworkParams.atLimits.synapseGroups.map fun group =>
          { group with connections := [{ pre := 0, post := 1 }] } } ∧
    NetworkParams.record.read ((NetworkParams.record.write .atLimits).replacing
        [.field "neuron_groups", .item 0, .field "neuron_params"]
        (.obj [("refractory_period", .nat 255), ("tau", .nat 10), ("threshold_v_mant", .nat 100),
          ("decay_v", .nat 0), ("decay_i", .nat 65535)])) =
      .error (.unknownField "tau"
        ["refractory_period", "threshold_v_mant", "decay_v", "decay_i"]) := by
  have weights : Places.OnlyFields NetworkParams.optionalFields
      fun path => path.getLast? = some (.field "weight") := by
    intro path name chosen
    have last : (path ++ [PathStep.field name]).getLast? = some (.field "weight") :=
      of_decide_eq_true chosen
    rw [List.getLast?_concat] at last
    rw [PathStep.field.inj (Option.some.inj last)]
    decide
  obtain ⟨readSnapshot, readParams⟩ := saved_data_read_back
  obtain ⟨same, defaults, refused⟩ := readParams .atLimits NetworkParams.inWords_atLimits
  refine ⟨readSnapshot .atLimits Snapshot.inWords_atLimits, same, defaults _ weights, ?_⟩
  exact refused [.field "neuron_groups", .item 0, .field "neuron_params"]
    [("refractory_period", .nat 255)]
    [("threshold_v_mant", .nat 100), ("decay_v", .nat 0), ("decay_i", .nat 65535)]
    "tau" (.nat 10) rfl (by decide)

end Neurochip
