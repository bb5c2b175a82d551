import Neurochip.Scenario

namespace Neurochip

/-!
# The checksum program

Draws the random scenario from the seed zero, runs it, and prints the sums that
condense the run.  Equal sums on two machines mean equal runs.
-/

namespace Checksum

/-- The number of steps of the run. -/
def steps : Nat := 1000

/-- The lines that show a summary. -/
def lines (summary : Scenario.Summary) : List String :=
  ["batch result:",
    s!"...excitatory checksum: {summary.excitatory}",
    s!"...inhibitory checksum: {summary.inhibitory}",
    s!"...synaptic transmission count: {summary.transmissions}",
    s!"...weight update count: {summary.weightUpdates}",
    "snapshot:",
    s!"...voltages checksum: {summary.voltages}",
    s!"...synapse states checksum: {summary.synapses}"]

/-- The summary of a run of the scenario, if it makes up a valid network. -/
def summary? (processors : Nat) : Option Scenario.Summary := do
  let draw ← Scenario.populate? Scenario.params
  let (params, _) := draw.run (.ofSeed 0)
  let network ← (Network.configure processors params).toOption
  let (reports, network) := network.run steps
  Scenario.Summary.ofRun? reports network

end Checksum

end Neurochip

/-- Prints the summary of the run. -/
def main : IO Unit := do
  match Neurochip.Checksum.summary? 1 with
  | some summary => (Neurochip.Checksum.lines summary).forM IO.println
  | none => IO.eprintln "the scenario is not a valid network"
