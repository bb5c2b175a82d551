import Neurochip.Decimal.Shortest
import Neurochip.Params.Basic

namespace Neurochip

/-!
# Parameter overviews

An overview is a text for the reader of a log: a heading, an empty line, and
one line for each parameter with its name in a column of eighteen characters.
-/

namespace Overview

/-- The width of the column of names. -/
def nameWidth : Nat := 18

/-- One line of an overview. -/
def line (entry : String × String) : String :=
  entry.1.pushn ' ' (nameWidth - entry.1.length) ++ " " ++ entry.2 ++ "\n"

/-- A heading and the lines below it. -/
def text (heading : String) (entries : List (String × String)) : String :=
  heading ++ "\n\n" ++ String.join (entries.map line)

end Overview

namespace NeuronParams

/-- The steps in which a variable with the given decay constant fades; without decay it never does. -/
def timeConstant (decay : Nat) : String :=
  if decay = 0 then
    "inf"
  else
    (Binary64.ofRatio FixedPoint.decayScale decay).shortest.text

/-- The overview of the parameters of a neuron group. -/
def overview (params : NeuronParams) : String :=
  Overview.text "Parameters of the neuron group:"
    [("decay_v", toString params.decayVoltage),
      ("decay_I", toString params.decayCurrent),
      ("tau_v", timeConstant params.decayVoltage),
      ("tau_I", timeConstant params.decayCurrent),
      ("refractory", toString params.refractoryPeriod),
      ("threshold_v_mant", toString params.thresholdMantissa),
      ("v_th", toString params.threshold),
      ("reset_v", "0")]

end NeuronParams

namespace SynapseParams

/-- The overview of the parameters of a synapse group. -/
def overview (params : SynapseParams) : String :=
  Overview.text "Parameters of the synapses:"
    ([("delay", toString params.delay),
      ("dw", params.learningRule),
      ("w_exp", toString params.weightExponent),
      ("sign_mode", params.signMode.name),
      ("num_weight_bits", toString params.weightBits)] ++
    Channel.all.flatMap fun channel =>
      [(s!"imp_{channel.name}", toString (params.traces.get channel).impulse),
        (s!"tau_{channel.name}", toString (params.traces.get channel).tau)])

end SynapseParams

end Neurochip
