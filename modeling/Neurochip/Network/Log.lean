import Neurochip.Network.Step
import Neurochip.Params.Overview

namespace Neurochip

/-!
# Log messages

A network tells a log how it was configured, when it is stepped at another time
than the expected one, and what each step has counted.
-/

/-- How important a message is. -/
inductive LogLevel where
  | trace
  | debug
  | warn
  deriving Repr, DecidableEq

namespace LogLevel

/-- The name of a level. -/
def name : LogLevel → String
  | trace => "TRACE"
  | debug => "DEBUG"
  | warn => "WARN"

end LogLevel

/-- One message. -/
structure LogEntry where
  level : LogLevel
  text : String
  deriving Repr, DecidableEq

namespace LogEntry

/-- The message as a line of a log. -/
def line (entry : LogEntry) : String :=
  entry.level.name ++ " " ++ entry.text

/-- What is told before a step that was expected at some time. -/
def beforeStep (expected time : Nat) : List LogEntry :=
  if time = expected then
    []
  else
    [⟨.warn, s!"stepping at t = {time}, expected t = {expected}"⟩]

/-- What is told after a step. -/
def afterStep (report : StepReport) : LogEntry :=
  ⟨.trace,
    s!"t = {report.time}: {report.spikeCount} spikes, " ++
      s!"{report.transmissions} transmissions, {report.weightUpdates} weight updates"⟩

/-- What is told of a step that was expected at some time. -/
def ofStep (expected : Nat) (report : StepReport) : List LogEntry :=
  beforeStep expected report.time ++ [afterStep report]

/-- What is told of a run of consecutive steps. -/
def ofRun (reports : List StepReport) : List LogEntry :=
  reports.map afterStep

/-- What is told of a network that has just been configured. -/
def ofConfiguration (network : Network) : List LogEntry :=
  let neurons := tally NeuronGroup.size network.neuronGroups
  let synapses := tally SynapseGroup.size network.synapseGroups
  let summary :=
    s!"configured network: {neurons} neurons in {network.neuronGroups.length} groups, " ++
      s!"{network.spikeSources.length} spike sources, " ++
      s!"{synapses} synapses in {network.synapseGroups.length} groups, " ++
      s!"{network.rounding.name} rounding, {network.threads} threads"
  let neuronGroups := network.neuronGroups.zipIdx.map fun (group, index) =>
    s!"neuron group {index}\n" ++ group.params.overview
  let synapseGroups := network.synapseGroups.zipIdx.map fun (group, index) =>
    s!"synapse group {index}\n" ++ group.params.overview
  (summary :: (neuronGroups ++ synapseGroups)).map (⟨.debug, ·⟩)

end LogEntry

end Neurochip
