import Neurochip.Proofs.Network.Configured

namespace Neurochip

/-!
# What becomes of a description

A description is refused for the first source whose events are incomplete, else
for everything that the checks find, else for the first learning rule that is
none.  The main statement says that there is no other refusal: objects check
their own parameters again when they are created, but only a learning rule can
still be refused there.
-/

theorem Refusal.checkLengths_eq_error_iff
    {compared : Compared}
    {left right : Nat}
    {refusal : Refusal} :
    checkLengths compared left right = .error refusal ↔
      left ≠ right ∧ refusal = .lengths compared left right := by
  unfold checkLengths
  split
  · rename_i same
    simp [same]
  · rename_i different
    simp [different, eq_comm]

theorem Refusal.checkValid_eq_error_iff
    {violations : List Violation}
    {refusal : Refusal} :
    checkValid violations = .error refusal ↔
      violations ≠ [] ∧ refusal = .invalid violations := by
  cases violations <;> simp [checkValid, eq_comm]

/-- A rule is refused if its text is not blank and cannot be parsed. -/
theorem LearningRule.parse?_eq_error_iff {text : String} {error : Rule.Error} :
    parse? text = .error error ↔ isBlankText text = false ∧ parse text = .error error := by
  unfold parse?
  split
  · rename_i blank
    simp [blank, pure, Except.pure]
  · rename_i written
    rw [Bool.not_eq_true] at written
    rw [bind_eq_error_iff]
    simp [written, pure, Except.pure]

/-- The indices and times of a source differ in number. -/
def SpikeSourceParams.Incomplete (params : SpikeSourceParams) : Prop :=
  params.indices.length ≠ params.times.length

/-- The learning rule of a group is not blank, and the first thing wrong with it is an error. -/
def SynapseGroupParams.HasRuleError (params : SynapseGroupParams) (error : Rule.Error) : Prop :=
  isBlankText params.synapse.learningRule = false ∧
    LearningRule.parse params.synapse.learningRule = .error error

/-- The learning rule of a group is not blank and cannot be parsed. -/
def SynapseGroupParams.Unparsable (params : SynapseGroupParams) : Prop :=
  ∃ error, params.HasRuleError error

/-- A group without an error in its rule has a rule, or a blank text in its place. -/
theorem SynapseGroupParams.exists_rule_iff {params : SynapseGroupParams} :
    (∃ rule, LearningRule.parse? params.synapse.learningRule = .ok rule) ↔
      ¬ params.Unparsable := by
  unfold Unparsable HasRuleError
  simp only [← LearningRule.parse?_eq_error_iff]
  cases LearningRule.parse? params.synapse.learningRule <;> simp

/-- Of acceptable parameters only the learning rule is refused. -/
theorem SynapseGroup.create_eq_error_iff
    {params : SynapseGroupParams}
    {network : NetworkParams}
    (acceptable : params.Acceptable network)
    {generator : Generator}
    {refusal : Refusal} :
    create params generator = .error refusal ↔
      ∃ error, params.HasRuleError error ∧ refusal = .rule error := by
  have valid : params.synapse.violations [] = [] :=
    SynapseParams.violations_eq_nil_iff.mpr acceptable.synapse
  have weights : params.synapse.signMode.violations [.field "connections"] params.weights = [] := by
    rw [SignMode.violations_eq_nil_iff, SynapseGroupParams.weights, List.forall_mem_map]
    exact acceptable.weights
  unfold create SynapseGroupParams.HasRuleError
  simp only [← LearningRule.parse?_eq_error_iff]
  rw [valid, weights]
  cases LearningRule.parse? params.synapse.learningRule <;>
    simp [Refusal.checkValid, Except.mapError, bind, Except.bind, pure, Except.pure, eq_comm]

namespace NetworkParams

/-- All spike sources have as many times as indices. -/
def EventsComplete (params : NetworkParams) : Prop :=
  ∀ source ∈ params.spikeSources, source.indices.length = source.times.length

variable {params : NetworkParams} {processors : Nat}

theorem checkSourceEvents_eq_ok_iff :
    params.checkSourceEvents = .ok () ↔ params.EventsComplete := by
  simp only [checkSourceEvents, forM_eq_ok_iff, Refusal.checkLengths_eq_ok_iff, EventsComplete]
  constructor
  · intro complete source member
    obtain ⟨index, place⟩ := List.mem_iff_getElem?.mp member
    exact complete (source, index) (List.mk_mem_zipIdx_iff_getElem?.mpr place)
  · intro complete entry member
    exact complete entry.1 (List.fst_mem_of_mem_zipIdx member)

/-- Incomplete events are refused with the index and the lengths of the first source that has
them. -/
theorem checkSourceEvents_eq_error_iff {refusal : Refusal} :
    params.checkSourceEvents = .error refusal ↔
      ∃ index source, IsFirst SpikeSourceParams.Incomplete params.spikeSources index source ∧
        refusal =
          .lengths (.sourceEvents index) source.indices.length source.times.length := by
  have refuses : ∀ entry ∈ params.spikeSources.zipIdx,
      Refuses (fun entry : SpikeSourceParams × Nat =>
        Refusal.checkLengths (.sourceEvents entry.2) entry.1.indices.length
          entry.1.times.length) entry ↔ entry.1.Incomplete := by
    intro entry _
    simp [Refuses, Refusal.checkLengths_eq_error_iff, SpikeSourceParams.Incomplete]
  rw [checkSourceEvents, forM_eq_error_iff]
  constructor
  · rintro ⟨index, ⟨source, number⟩, isFirst, refused⟩
    obtain ⟨first, rfl⟩ := isFirst_zipIdx_iff.mp ((isFirst_congr refuses).mp isFirst)
    exact ⟨number, source, first, (Refusal.checkLengths_eq_error_iff.mp refused).2⟩
  · rintro ⟨index, source, first, rfl⟩
    exact ⟨index, (source, index),
      (isFirst_congr refuses).mpr (isFirst_zipIdx_iff.mpr ⟨first, rfl⟩),
      Refusal.checkLengths_eq_error_iff.mpr ⟨first.holds, rfl⟩⟩

end NetworkParams

namespace Network

variable {params : NetworkParams} {processors : Nat}

/-- The objects of a description without violations are created, apart from learning rules that
cannot be parsed. -/
theorem ofParams_eq_error_iff
    (complete : params.EventsComplete)
    (acceptable : params.Acceptable processors)
    {refusal : Refusal} :
    ofParams params = .error refusal ↔
      ∃ index group, IsFirst SynapseGroupParams.Unparsable params.synapseGroups index group ∧
        ∃ error, group.HasRuleError error ∧ refusal = .rule error := by
  obtain ⟨neuronGroups, neurons⟩ := exists_mapM_eq_ok fun entry member =>
    exists_create_neurons acceptable member
  obtain ⟨spikeSources, sources⟩ := exists_mapM_eq_ok fun source member =>
    exists_create_source (NetworkParams.checkSourceEvents_eq_ok_iff.mpr complete) acceptable member
  have create_iff : ∀ entry ∈ params.synapseGroups.zipIdx, ∀ refusal,
      SynapseGroup.create entry.1 (params.synapseGenerator entry.2) = .error refusal ↔
        ∃ error, entry.1.HasRuleError error ∧ refusal = .rule error :=
    fun entry member _ => SynapseGroup.create_eq_error_iff
      (acceptable.synapseGroups entry.1 (List.fst_mem_of_mem_zipIdx member))
  have refuses : ∀ entry ∈ params.synapseGroups.zipIdx,
      Refuses (fun entry : SynapseGroupParams × Nat =>
        SynapseGroup.create entry.1 (params.synapseGenerator entry.2)) entry ↔
        entry.1.Unparsable := by
    intro entry member
    simp [Refuses, create_iff entry member, SynapseGroupParams.Unparsable]
  -- Neuron groups and sources are created, so that the synapse groups decide.
  have created : ofParams params =
      (params.synapseGroups.zipIdx.mapM fun entry =>
        SynapseGroup.create entry.1 (params.synapseGenerator entry.2)) >>= fun synapseGroups =>
          pure {
            neuronGroups := neuronGroups
            spikeSources := spikeSources
            synapseGroups := synapseGroups
            rounding := params.technical.rounding
            threads := params.technical.threads
            nextTime := 0 } := by
    unfold ofParams
    rw [neurons, sources]
    rfl
  rw [created, bind_eq_error_iff, mapM_eq_error_iff]
  constructor
  · rintro (⟨index, ⟨group, number⟩, isFirst, refused⟩ | ⟨_, _, impossible⟩)
    · obtain ⟨first, rfl⟩ := isFirst_zipIdx_iff.mp ((isFirst_congr refuses).mp isFirst)
      have member := List.mem_of_getElem? isFirst.found
      exact ⟨number, group, first, (create_iff (group, number) member refusal).mp refused⟩
    · cases impossible
  · rintro ⟨index, group, first, hasError⟩
    have isFirst := (isFirst_congr refuses).mpr (isFirst_zipIdx_iff.mpr ⟨first, rfl⟩)
    have member := List.mem_of_getElem? isFirst.found
    exact .inl ⟨index, (group, index), isFirst,
      (create_iff (group, index) member refusal).mpr hasError⟩

/-- A description is refused for the first source with incomplete events, else for all that the
checks find, else for the first learning rule that cannot be parsed. -/
theorem configure_eq_error_iff {refusal : Refusal} :
    configure processors params = .error refusal ↔
      (∃ index source, IsFirst SpikeSourceParams.Incomplete params.spikeSources index source ∧
        refusal = .lengths (.sourceEvents index) source.indices.length source.times.length) ∨
      (params.EventsComplete ∧ params.violations processors ≠ [] ∧
        refusal = .invalid (params.violations processors)) ∨
      (params.EventsComplete ∧ params.violations processors = [] ∧
        ∃ index group, IsFirst SynapseGroupParams.Unparsable params.synapseGroups index group ∧
          ∃ error, group.HasRuleError error ∧ refusal = .rule error) := by
  rw [configure, check_bind_eq_error_iff, NetworkParams.check, check_bind_eq_error_iff,
    check_bind_eq_ok_iff, Refusal.checkValid_eq_error_iff, Refusal.checkValid_eq_ok_iff,
    NetworkParams.checkSourceEvents_eq_error_iff, NetworkParams.checkSourceEvents_eq_ok_iff,
    or_assoc, and_assoc]
  refine or_congr_right (or_congr_right (and_congr_right fun complete =>
    and_congr_right fun valid => ?_))
  exact ofParams_eq_error_iff complete (NetworkParams.violations_eq_nil_iff.mp valid)

theorem exists_configure_iff :
    (∃ network, configure processors params = .ok network) ↔
      params.EventsComplete ∧ params.violations processors = [] ∧
        ∀ group ∈ params.synapseGroups, ¬ group.Unparsable := by
  constructor
  · rintro ⟨network, accepted⟩
    obtain ⟨complete, acceptable, _⟩ := configure_eq_ok_iff.mp accepted
    refine ⟨NetworkParams.checkSourceEvents_eq_ok_iff.mp complete,
      NetworkParams.violations_eq_nil_iff.mpr acceptable, fun group member => ?_⟩
    exact SynapseGroupParams.exists_rule_iff.mp (exists_rule_of_configure accepted member)
  · rintro ⟨complete, valid, parsable⟩
    exact exists_configure (NetworkParams.checkSourceEvents_eq_ok_iff.mpr complete) valid
      fun group member => SynapseGroupParams.exists_rule_iff.mpr (parsable group member)

/-- What the outcome of a configuration says about the description. -/
structure Classifies
    (processors : Nat)
    (params : NetworkParams)
    (outcome : Except Refusal Network) :
    Prop where
  incomplete :
    (∃ compared left right, outcome = .error (.lengths compared left right)) ↔
      ∃ source ∈ params.spikeSources, source.Incomplete
  firstIncomplete : ∀ compared left right, outcome = .error (.lengths compared left right) →
    ∃ index source, IsFirst SpikeSourceParams.Incomplete params.spikeSources index source ∧
      compared = .sourceEvents index ∧
      compared.text = s!"spike_sources[{index}] indices and times" ∧
      left = source.indices.length ∧ right = source.times.length
  invalid :
    (∃ violations, outcome = .error (.invalid violations)) ↔
      params.EventsComplete ∧ params.violations processors ≠ []
  allViolations : ∀ violations, outcome = .error (.invalid violations) →
    violations = params.violations processors
  unparsable :
    (∃ error, outcome = .error (.rule error)) ↔
      params.EventsComplete ∧ params.violations processors = [] ∧
        ∃ group ∈ params.synapseGroups, group.Unparsable
  firstUnparsable : ∀ error, outcome = .error (.rule error) →
    ∃ index group, IsFirst SynapseGroupParams.Unparsable params.synapseGroups index group ∧
      group.HasRuleError error
  accepted :
    (∃ network, outcome = .ok network) ↔
      params.EventsComplete ∧ params.violations processors = [] ∧
        ∀ group ∈ params.synapseGroups, ¬ group.Unparsable

theorem configure_eq_lengths_iff {compared : Compared} {left right : Nat} :
    configure processors params = .error (.lengths compared left right) ↔
      ∃ index source, IsFirst SpikeSourceParams.Incomplete params.spikeSources index source ∧
        compared = .sourceEvents index ∧
        left = source.indices.length ∧ right = source.times.length := by
  simp [configure_eq_error_iff]

theorem configure_eq_invalid_iff {violations : List Violation} :
    configure processors params = .error (.invalid violations) ↔
      params.EventsComplete ∧ params.violations processors ≠ [] ∧
        violations = params.violations processors := by
  simp [configure_eq_error_iff]

theorem configure_eq_rule_iff {error : Rule.Error} :
    configure processors params = .error (.rule error) ↔
      params.EventsComplete ∧ params.violations processors = [] ∧
        ∃ index group, IsFirst SynapseGroupParams.Unparsable params.synapseGroups index group ∧
          group.HasRuleError error := by
  simp [configure_eq_error_iff]

/-- Some rule error is reported exactly where some learning rule cannot be parsed. -/
theorem exists_configure_eq_rule_iff :
    (∃ error, configure processors params = .error (.rule error)) ↔
      params.EventsComplete ∧ params.violations processors = [] ∧
        ∃ group ∈ params.synapseGroups, group.Unparsable := by
  simp only [configure_eq_rule_iff, ← exists_isFirst_iff]
  constructor
  · rintro ⟨error, complete, valid, index, group, first, _⟩
    exact ⟨complete, valid, index, group, first⟩
  · rintro ⟨complete, valid, index, group, first⟩
    obtain ⟨error, hasError⟩ := first.holds
    exact ⟨error, complete, valid, index, group, first, hasError⟩

theorem classifies_configure (processors : Nat) (params : NetworkParams) :
    Classifies processors params (configure processors params) where
  incomplete := by
    simp only [configure_eq_lengths_iff, ← exists_isFirst_iff]
    simp
  firstIncomplete := by
    intro compared left right refused
    obtain ⟨index, source, first, rfl, lengths⟩ := configure_eq_lengths_iff.mp refused
    exact ⟨index, source, first, rfl, rfl, lengths⟩
  invalid := by simp [configure_eq_invalid_iff]
  allViolations := fun _ refused => (configure_eq_invalid_iff.mp refused).2.2
  unparsable := exists_configure_eq_rule_iff
  firstUnparsable := fun _ refused => (configure_eq_rule_iff.mp refused).2.2
  accepted := exists_configure_iff

/-- The objects of a description with complete events and without violations are all created, except
for synapse groups whose learning rule cannot be parsed. -/
structure CreatesAll (params : NetworkParams) : Prop where
  neuronGroups : ∀ group ∈ params.neuronGroups, ∀ generator, ∃ created,
    NeuronGroup.create group.size group.neuron generator = .ok created
  spikeSources : ∀ source ∈ params.spikeSources, ∃ created, SpikeSource.create source = .ok created
  synapseGroups : ∀ group ∈ params.synapseGroups, ∀ generator refusal,
    SynapseGroup.create group generator = .error refusal →
      ∃ error, group.HasRuleError error ∧ refusal = .rule error

/-- The checks of the objects find nothing more than those of the description, but for rules. -/
theorem createsAll
    (complete : params.EventsComplete)
    (valid : params.violations processors = []) :
    CreatesAll params := by
  have acceptable := NetworkParams.violations_eq_nil_iff.mp valid
  constructor
  case neuronGroups =>
    intro group member generator
    have neuron : group.neuron.violations [] = [] :=
      NeuronParams.violations_eq_nil_iff.mpr (acceptable.neuronGroups group member)
    exact ⟨_, NeuronGroup.create_eq_ok_iff.mpr ⟨neuron, rfl⟩⟩
  case spikeSources =>
    intro source member
    exact exists_create_source (NetworkParams.checkSourceEvents_eq_ok_iff.mpr complete) acceptable
      member
  case synapseGroups =>
    intro group member generator refusal refused
    exact (SynapseGroup.create_eq_error_iff (acceptable.synapseGroups group member)).mp refused

/-- With room for its neurons, a description has the same outcome on a machine. -/
theorem configure?_of_hasRoom (room : params.HasRoom) :
    configure? processors params = some <$> configure processors params := by
  unfold configure? configure
  cases params.check processors with
  | error refusal => rfl
  | ok passed =>
      rw [if_pos room]
      rfl

/-- Every description is classified: it is refused for the first source with incomplete events, else
for all of its violations, else for the first learning rule that cannot be parsed, and otherwise it
is configured. The objects of a network refuse nothing that the checks have let through, except
for learning rules. -/
theorem configure_classifies (processors : Nat) (params : NetworkParams) :
    Classifies processors params (configure processors params) ∧
      (params.HasRoom →
        configure? processors params = some <$> configure processors params) ∧
      (params.EventsComplete → params.violations processors = [] → CreatesAll params) :=
  ⟨classifies_configure processors params, configure?_of_hasRoom, createsAll⟩

end Network

/-- A pair of neurons with a learning rule that reads a trace there is not. -/
def NetworkParams.misspelled : NetworkParams :=
  { neuronGroups := [{ size := 2 }]
    synapseGroups :=
      [{ source := .neuronGroup 0, target := 0, connections := [] },
        { source := .neuronGroup 0
          target := 0
          connections := [{ pre := 0, post := 1, weight := 50 }]
          synapse := { learningRule := "x1 * w" } }] }

namespace Network

/-- The misspelled rule is found, although its synapse group has no violation. -/
theorem configure_classifies_misspelled :
    (∃ error, configure 1 .misspelled = .error (.rule error)) ∧
      (∃ error, configure? 1 .misspelled = .error (.rule error)) ∧
      CreatesAll .misspelled := by
  have complete : NetworkParams.misspelled.EventsComplete := by
    simp [NetworkParams.EventsComplete, NetworkParams.misspelled]
  have valid : NetworkParams.misspelled.violations 1 = [] := by decide +kernel
  have room : NetworkParams.misspelled.HasRoom := by decide +kernel
  have hasError : SynapseGroupParams.HasRuleError
      { source := .neuronGroup 0
        target := 0
        connections := [{ pre := 0, post := 1, weight := 50 }]
        synapse := { learningRule := "x1 * w" } }
      { token := "w", position := 5, kind := .unknownIdentifier } := by
    constructor <;> decide +kernel
  obtain ⟨classifies, onMachine, creates⟩ := configure_classifies 1 .misspelled
  obtain ⟨error, refused⟩ := classifies.unparsable.mpr
    ⟨complete, valid, _, .tail _ (.head _), _, hasError⟩
  exact ⟨⟨error, refused⟩, ⟨error, by rw [onMachine room, refused]; rfl⟩, creates complete valid⟩

end Network

end Neurochip
