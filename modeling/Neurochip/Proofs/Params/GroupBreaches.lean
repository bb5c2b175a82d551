import Neurochip.Proofs.Params.Listing

namespace Neurochip

/-!
# Constraints on groups

What neurons, synapses and the connections of a synapse group have to satisfy,
one constraint at a time, with the violation that each of them is where it is
broken.  The main statements say that the checks of these parts miss nothing.
-/

namespace NeuronParams

/-- What is constrained of the parameters of neurons. -/
inductive Constraint where
  | refractoryPeriod
  | threshold
  | decayVoltage
  | decayCurrent
  deriving Repr, DecidableEq

/-- The place of a constraint in the order in which violations are listed. -/
def Constraint.rank : Constraint → List Nat
  | refractoryPeriod => [0]
  | threshold => [1]
  | decayVoltage => [2]
  | decayCurrent => [3]

/-- The parameters found at a path break a constraint, and the violation says so. -/
def Breaks (params : NeuronParams) (path : Path) : Constraint → Violation → Prop
  | .refractoryPeriod, violation =>
      ¬ (1 ≤ params.refractoryPeriod ∧ params.refractoryPeriod ≤ 64) ∧
        violation =
          .outsideRange (path ++ [.field "refractory_period"]) 1 64 params.refractoryPeriod
  | .threshold, violation =>
      131071 < params.thresholdMantissa ∧
        violation =
          .outsideRange (path ++ [.field "threshold_v_mant"]) 0 131071 params.thresholdMantissa
  | .decayVoltage, violation =>
      4096 < params.decayVoltage ∧
        violation = .outsideRange (path ++ [.field "decay_v"]) 0 4096 params.decayVoltage
  | .decayCurrent, violation =>
      4096 < params.decayCurrent ∧
        violation = .outsideRange (path ++ [.field "decay_i"]) 0 4096 params.decayCurrent

theorem listing_violations (params : NeuronParams) (path : Path) :
    Listing (fun _ => True) (params.Breaks path) Constraint.rank (params.violations path) := by
  have period : Listing (· = .refractoryPeriod) (params.Breaks path) Constraint.rank
      (Violation.ofRange (path ++ [.field "refractory_period"]) refractoryRange
        params.refractoryPeriod) := by
    refine Listing.single_ofRange fun violation => and_congr_left fun _ => not_congr ?_
    simp only [refractoryRange, maxRefractoryPeriod]
    omega
  have threshold : Listing (· = .threshold) (params.Breaks path) Constraint.rank _ :=
    Listing.single_ofMaximum fun violation => Iff.rfl
  have voltage : Listing (· = .decayVoltage) (params.Breaks path) Constraint.rank _ :=
    Listing.single_ofMaximum fun violation => Iff.rfl
  have current : Listing (· = .decayCurrent) (params.Breaks path) Constraint.rank _ :=
    Listing.single_ofMaximum fun violation => Iff.rfl
  refine (((period.append threshold ?_).append voltage ?_).append current ?_).congr ?_
  · rintro _ _ rfl rfl
    decide
  · rintro _ _ (rfl | rfl) rfl <;> decide
  · rintro _ _ ((rfl | rfl) | rfl) rfl <;> decide
  · rintro (_ | _ | _ | _) <;> simp

theorem not_breaks_repeatedEvent
    {params : NeuronParams}
    {path place : Path}
    {constraint : Constraint}
    {index time : Nat} :
    ¬ params.Breaks path constraint (.repeatedEvent place index time) := by
  cases constraint <;> simp [Breaks]

end NeuronParams

namespace SynapseParams

/-- What is constrained of the parameters of synapses. -/
inductive Constraint where
  | delay
  | weightExponent
  | weightBits
  | impulse (channel : Channel)
  deriving Repr, DecidableEq

/-- The place of a constraint in the order in which violations are listed. -/
def Constraint.rank : Constraint → List Nat
  | delay => [0]
  | weightExponent => [1]
  | weightBits => [2]
  | impulse .x1 => [3, 0]
  | impulse .x2 => [3, 1]
  | impulse .y1 => [3, 2]
  | impulse .y2 => [3, 3]
  | impulse .y3 => [3, 4]

/-- The parameters found at a path break a constraint, and the violation says so. -/
def Breaks (params : SynapseParams) (path : Path) : Constraint → Violation → Prop
  | .delay, violation =>
      62 < params.delay ∧ violation = .outsideRange (path ++ [.field "delay"]) 0 62 params.delay
  | .weightExponent, violation =>
      ¬ (-8 ≤ params.weightExponent ∧ params.weightExponent ≤ 7) ∧
        violation = .outsideRange (path ++ [.field "w_exp"]) (-8) 7 params.weightExponent
  | .weightBits, violation =>
      8 < params.weightBits ∧
        violation = .outsideRange (path ++ [.field "num_weight_bits"]) 0 8 params.weightBits
  | .impulse channel, violation =>
      127 < (params.traces.get channel).impulse ∧
        violation =
          .outsideRange (path ++ [.field "traces", .field channel.name, .field "impulse"]) 0 127
            (params.traces.get channel).impulse

theorem listing_violations (params : SynapseParams) (path : Path) :
    Listing (fun _ => True) (params.Breaks path) Constraint.rank (params.violations path) := by
  have delay : Listing (· = .delay) (params.Breaks path) Constraint.rank _ :=
    Listing.single_ofMaximum fun violation => Iff.rfl
  have exponent : Listing (· = .weightExponent) (params.Breaks path) Constraint.rank
      (Violation.ofRange (path ++ [.field "w_exp"]) exponentRange params.weightExponent) :=
    Listing.single_ofRange fun violation => Iff.rfl
  have bits : Listing (· = .weightBits) (params.Breaks path) Constraint.rank _ :=
    Listing.single_ofMaximum fun violation => Iff.rfl
  have impulses : Listing (fun constraint => ∃ channel ∈ Channel.all, constraint = .impulse channel)
      (params.Breaks path) Constraint.rank
      (Channel.all.flatMap fun channel =>
        Violation.ofMaximum (path ++ [.field "traces", .field channel.name, .field "impulse"])
          maxImpulse (params.traces.get channel).impulse) := by
    refine Listing.flatMap (fun channel _ => Listing.single_ofMaximum fun violation => Iff.rfl) ?_
    have channels : Channel.all.Pairwise fun first second =>
        (Constraint.impulse first).rank < (Constraint.impulse second).rank := by decide
    refine channels.imp ?_
    rintro first second before _ _ rfl rfl
    exact before
  refine (((delay.append exponent ?_).append bits ?_).append impulses ?_).congr ?_
  · rintro _ _ rfl rfl
    decide
  · rintro _ _ (rfl | rfl) rfl <;> decide
  · rintro _ _ ((rfl | rfl) | rfl) ⟨channel, _, rfl⟩ <;> cases channel <;> decide
  · rintro (_ | _ | _ | channel)
    case impulse => cases channel <;> simp [Channel.all]
    all_goals simp

theorem not_breaks_repeatedEvent
    {params : SynapseParams}
    {path place : Path}
    {constraint : Constraint}
    {index time : Nat} :
    ¬ params.Breaks path constraint (.repeatedEvent place index time) := by
  cases constraint <;> simp [Breaks]

end SynapseParams

namespace Connection

/-- The two ends of a connection are constrained. -/
inductive Constraint where
  | pre
  | post
  deriving Repr, DecidableEq

/-- The place of a constraint in the order in which violations are listed. -/
def Constraint.rank : Constraint → List Nat
  | pre => [0]
  | post => [1]

/-- The connection found at a path breaks a constraint, and the violation says so. -/
def Breaks
    (connection : Connection)
    (path : Path)
    (sourceSize targetSize : Option Nat) :
    Constraint → Violation → Prop
  | .pre, violation =>
      ∃ size, sourceSize = some size ∧ size ≤ connection.pre ∧
        violation = .notBelow (path ++ [.field "pre"]) .sourceSize size connection.pre
  | .post, violation =>
      ∃ size, targetSize = some size ∧ size ≤ connection.post ∧
        violation = .notBelow (path ++ [.field "post"]) .targetSize size connection.post

theorem listing_violations
    (connection : Connection)
    (path : Path)
    (sourceSize targetSize : Option Nat) :
    Listing (fun _ => True) (connection.Breaks path sourceSize targetSize) Constraint.rank
      (connection.violations path sourceSize targetSize) := by
  have pre : Listing (· = .pre) (connection.Breaks path sourceSize targetSize) Constraint.rank _ :=
    Listing.single_ofLimit? fun violation => Iff.rfl
  have post :
      Listing (· = .post) (connection.Breaks path sourceSize targetSize) Constraint.rank _ :=
    Listing.single_ofLimit? fun violation => Iff.rfl
  have bothEnds : connection.violations path sourceSize targetSize =
      (sourceSize.elim [] fun size =>
        Violation.ofLimit (path ++ [.field "pre"]) .sourceSize size connection.pre) ++
      targetSize.elim [] fun size =>
        Violation.ofLimit (path ++ [.field "post"]) .targetSize size connection.post := by
    cases sourceSize <;> cases targetSize <;> rfl
  rw [bothEnds]
  refine (pre.append post ?_).congr ?_
  · rintro _ _ rfl rfl
    decide
  · rintro (_ | _) <;> simp

end Connection

namespace SynapseGroupParams

/-- What is constrained of a synapse group. -/
inductive Constraint where
  | source
  | target
  | connection (position : Nat) (constraint : Connection.Constraint)
  | weight (position : Nat)
  | synapse (constraint : SynapseParams.Constraint)
  deriving Repr, DecidableEq

/-- The place of a constraint in the order in which violations are listed. -/
def Constraint.rank : Constraint → List Nat
  | source => [0]
  | target => [1]
  | connection position constraint => 2 :: position :: constraint.rank
  | weight position => [3, position]
  | synapse constraint => 4 :: constraint.rank

/-- The group found at a path of a network breaks a constraint, and the violation says so. -/
def Breaks (params : SynapseGroupParams) (path : Path) (network : NetworkParams) :
    Constraint → Violation → Prop
  | .source, violation =>
      network.sourceSize? params.source = none ∧
        violation = .unknownSource (path ++ [.field "source"]) params.source
  | .target, violation =>
      network.targetSize? params.target = none ∧
        violation = .unknownTarget (path ++ [.field "target_group"]) params.target
  | .connection position constraint, violation =>
      ∃ connection, params.connections[position]? = some connection ∧
        connection.Breaks (path ++ [.field "connections", .item position])
          (network.sourceSize? params.source) (network.targetSize? params.target)
          constraint violation
  | .weight position, violation =>
      ∃ connection, params.connections[position]? = some connection ∧
        ¬ params.synapse.signMode.range.Contains connection.weight ∧
        violation =
          .weightOutsideRange
            (path ++ [.field "connections", .item position, .field "weight"])
            params.synapse.signMode connection.weight
  | .synapse constraint, violation =>
      params.synapse.Breaks (path ++ [.field "synapse_params"]) constraint violation

theorem listing_violations
    (params : SynapseGroupParams)
    (path : Path)
    (network : NetworkParams) :
    Listing (fun _ => True) (params.Breaks path network) Constraint.rank
      (params.violations path network) := by
  have source : Listing (· = .source) (params.Breaks path network) Constraint.rank _ :=
    Listing.single_isNone fun violation => Iff.rfl
  have target : Listing (· = .target) (params.Breaks path network) Constraint.rank _ :=
    Listing.single_isNone fun violation => Iff.rfl
  have connections : Listing
      (fun constraint => ∃ position ending, constraint = .connection position ending)
      (params.Breaks path network) Constraint.rank
      (checkEach
        (fun position connection =>
          connection.violations (path ++ [.field "connections", .item position])
            (network.sourceSize? params.source) (network.targetSize? params.target))
        params.connections) :=
    Listing.checkEach_wrap (fun _ connection => connection.listing_violations _ _ _)
      Constraint.connection (fun _ _ _ => Iff.rfl) fun _ _ => rfl
  have weights : Listing (fun constraint => ∃ position, constraint = .weight position)
      (params.Breaks path network) Constraint.rank
      (params.synapse.signMode.violations (path ++ [.field "connections"]) params.weights) := by
    refine Listing.checkEach_single (fun position weight found => ?_) (fun _ => rfl) ?_
    · rw [weights, List.getElem?_map] at found
      obtain ⟨connection, place, rfl⟩ := Option.map_eq_some_iff.mp found
      exact Listing.single fun violation => by simp [Breaks, place]
    · rintro position violation ⟨connection, found, _⟩
      rw [weights, List.length_map]
      exact (List.getElem?_eq_some_iff.mp found).1
  have synapse : Listing (fun constraint => ∃ inner, True ∧ constraint = .synapse inner)
      (params.Breaks path network) Constraint.rank
      (params.synapse.violations (path ++ [.field "synapse_params"])) :=
    (params.synapse.listing_violations _).map Constraint.synapse (fun _ _ => Iff.rfl)
      fun _ _ before => List.cons_lt_cons_iff.mpr (.inr ⟨rfl, before⟩)
  refine ((((source.append target ?_).append connections ?_).append weights ?_).append
    synapse ?_).congr ?_
  · rintro _ _ rfl rfl
    decide
  · rintro _ _ (rfl | rfl) ⟨position, later, rfl⟩ <;>
      simp [Constraint.rank, List.cons_lt_cons_iff]
  · rintro _ _ ((rfl | rfl) | ⟨position, ending, rfl⟩) ⟨later, rfl⟩ <;>
      simp [Constraint.rank, List.cons_lt_cons_iff]
  · rintro _ _ (((rfl | rfl) | ⟨position, ending, rfl⟩) | ⟨position, rfl⟩) ⟨later, _, rfl⟩ <;>
      simp [Constraint.rank, List.cons_lt_cons_iff]
  · rintro (_ | _ | _ | _ | _) <;> simp

/-- Only sources have events that are repeated. -/
theorem not_breaks_repeatedEvent
    {params : SynapseGroupParams}
    {path place : Path}
    {network : NetworkParams}
    {constraint : Constraint}
    {index time : Nat} :
    ¬ params.Breaks path network constraint (.repeatedEvent place index time) := by
  cases constraint with
  | source => simp [Breaks]
  | target => simp [Breaks]
  | connection position ending => cases ending <;> simp [Breaks, Connection.Breaks]
  | weight position => simp [Breaks]
  | synapse inner => exact SynapseParams.not_breaks_repeatedEvent

end SynapseGroupParams

end Neurochip
