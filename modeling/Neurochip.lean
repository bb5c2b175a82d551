import Neurochip.Bounds
import Neurochip.Capacity
import Neurochip.Decimal.Binary64
import Neurochip.Decimal.Reading
import Neurochip.Decimal.Shortest
import Neurochip.DelayLine
import Neurochip.Error
import Neurochip.FixedPoint
import Neurochip.Json.Codec
import Neurochip.Json.Number
import Neurochip.Json.Record
import Neurochip.Json.Value
import Neurochip.Main
import Neurochip.Method
import Neurochip.Network.Basic
import Neurochip.Network.Form
import Neurochip.Network.Log
import Neurochip.Network.Request
import Neurochip.Network.Snapshot
import Neurochip.Network.Step
import Neurochip.Network.Variable
import Neurochip.Neuron
import Neurochip.NeuronGroup
import Neurochip.NeuronIndex
import Neurochip.Params.Acceptable
import Neurochip.Params.Basic
import Neurochip.Params.Form
import Neurochip.Params.Overview
import Neurochip.Params.Validation
import Neurochip.Params.Violation
import Neurochip.Partition
import Neurochip.Proofs.DelayLine.Arrival
import Neurochip.Proofs.DelayLine.Upcoming
import Neurochip.Proofs.Error.Acceptance
import Neurochip.Proofs.Error.Methods
import Neurochip.Proofs.Failure.Calls
import Neurochip.Proofs.Failure.DelayLine
import Neurochip.Proofs.Failure.Delivery
import Neurochip.Proofs.Failure.Guarded
import Neurochip.Proofs.Failure.NeuronGroup
import Neurochip.Proofs.Failure.Partition
import Neurochip.Proofs.Failure.Room
import Neurochip.Proofs.Failure.Rounding
import Neurochip.Proofs.Failure.Saving
import Neurochip.Proofs.Failure.Step
import Neurochip.Proofs.Failure.Synapse
import Neurochip.Proofs.Failure.SynapseGroup
import Neurochip.Proofs.Failure.Transmission
import Neurochip.Proofs.Failure.Weight
import Neurochip.Proofs.Json.Edits
import Neurochip.Proofs.Json.Lawful
import Neurochip.Proofs.Json.Records
import Neurochip.Proofs.Network.Acceptance
import Neurochip.Proofs.Network.Calls
import Neurochip.Proofs.Network.Causality
import Neurochip.Proofs.Network.Classification
import Neurochip.Proofs.Network.Configured
import Neurochip.Proofs.Network.Core
import Neurochip.Proofs.Network.Delivery
import Neurochip.Proofs.Network.Extension
import Neurochip.Proofs.Network.Forgetting
import Neurochip.Proofs.Network.Form
import Neurochip.Proofs.Network.Hearing
import Neurochip.Proofs.Network.History
import Neurochip.Proofs.Network.Layout
import Neurochip.Proofs.Network.Learning
import Neurochip.Proofs.Network.Phases
import Neurochip.Proofs.Network.Reordered
import Neurochip.Proofs.Network.Restoring
import Neurochip.Proofs.Network.Resumption
import Neurochip.Proofs.Network.Seeds
import Neurochip.Proofs.Network.Signs
import Neurochip.Proofs.NeuronGroup.Calls
import Neurochip.Proofs.NeuronGroup.Excitation
import Neurochip.Proofs.NeuronGroup.Frame
import Neurochip.Proofs.NeuronGroup.Intake
import Neurochip.Proofs.NeuronGroup.Refractory
import Neurochip.Proofs.NeuronGroup.Registers
import Neurochip.Proofs.NeuronGroup.Regular
import Neurochip.Proofs.NeuronGroup.Signs
import Neurochip.Proofs.Params.Breaches
import Neurochip.Proofs.Params.Form
import Neurochip.Proofs.Params.GroupBreaches
import Neurochip.Proofs.Params.Listing
import Neurochip.Proofs.Params.SourceBreaches
import Neurochip.Proofs.Partition.Ranges
import Neurochip.Proofs.Partition.Schedules
import Neurochip.Proofs.Random.Below
import Neurochip.Proofs.Random.CutOffs
import Neurochip.Proofs.Random.Draws
import Neurochip.Proofs.Random.Fixed
import Neurochip.Proofs.Random.Hashing
import Neurochip.Proofs.Random.Samples
import Neurochip.Proofs.Rounding.Contract
import Neurochip.Proofs.Rounding.Decay
import Neurochip.Proofs.Rounding.Multiples
import Neurochip.Proofs.Rounding.Neighbours
import Neurochip.Proofs.Rounding.Quotients
import Neurochip.Proofs.Rounding.Rest
import Neurochip.Proofs.Rounding.Unbiased
import Neurochip.Proofs.Rule.Agreement
import Neurochip.Proofs.Rule.Bounded
import Neurochip.Proofs.Rule.Calls
import Neurochip.Proofs.Rule.Cuts
import Neurochip.Proofs.Rule.Descent
import Neurochip.Proofs.Rule.Exact
import Neurochip.Proofs.Rule.Faults
import Neurochip.Proofs.Rule.Loops
import Neurochip.Proofs.Rule.Lossless
import Neurochip.Proofs.Rule.Recognition
import Neurochip.Proofs.Rule.Scanned
import Neurochip.Proofs.Rule.Triggers
import Neurochip.Proofs.Rule.Viable
import Neurochip.Proofs.Rule.Words
import Neurochip.Proofs.Rule.Written
import Neurochip.Proofs.Scenario.Chances
import Neurochip.Proofs.Scenario.Drawn
import Neurochip.Proofs.Scenario.Populated
import Neurochip.Proofs.SpikeSource.Periods
import Neurochip.Proofs.SpikeSource.Playback
import Neurochip.Proofs.SpikeSource.Search
import Neurochip.Proofs.SynapseGroup.Arrivals
import Neurochip.Proofs.SynapseGroup.Awaited
import Neurochip.Proofs.SynapseGroup.Committed
import Neurochip.Proofs.SynapseGroup.Core
import Neurochip.Proofs.SynapseGroup.Deliveries
import Neurochip.Proofs.SynapseGroup.Marking
import Neurochip.Proofs.SynapseGroup.Operations
import Neurochip.Proofs.SynapseGroup.Registers
import Neurochip.Proofs.SynapseGroup.Reordered
import Neurochip.Proofs.SynapseGroup.Saturation
import Neurochip.Proofs.SynapseGroup.Step
import Neurochip.Proofs.SynapseGroup.Traced
import Neurochip.Proofs.SynapseGroup.WellFormed
import Neurochip.Proofs.SynapseGroup.Wiring
import Neurochip.Proofs.Tally.Sums
import Neurochip.Proofs.Trace.Counted
import Neurochip.Proofs.Trace.Fading
import Neurochip.Proofs.Weight.Exact
import Neurochip.Proofs.Weight.Grid
import Neurochip.Proofs.Weight.Scaling
import Neurochip.Proofs.Weight.Stored
import Neurochip.Random.ChaCha
import Neurochip.Random.Draw
import Neurochip.Random.Generator
import Neurochip.Random.Sample
import Neurochip.Random.Seeding
import Neurochip.Rounding
import Neurochip.Rule.Expr
import Neurochip.Rule.Grammar
import Neurochip.Rule.LearningRule
import Neurochip.Rule.Parser
import Neurochip.Rule.Token
import Neurochip.Scenario
import Neurochip.SpikeSource
import Neurochip.Synapse
import Neurochip.SynapseGroup
import Neurochip.Tally
import Neurochip.Text.Blank
import Neurochip.Text.CharRanges
import Neurochip.Text.Extending
import Neurochip.Text.Ignorable
import Neurochip.Text.Quoted
import Neurochip.Text.Unprintable
import Neurochip.Trace
import Neurochip.Weight
