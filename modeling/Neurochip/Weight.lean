import Neurochip.FixedPoint

namespace Neurochip

/-!
# Synaptic weights

A weight is stored as a mantissa of eight bits and a sign, on a grid whose
spacing depends on the number of bits in use.  What a spike delivers is the
actual weight: the mantissa scaled by a power of two, in units of 64, in a
register of 22 bits.
-/

/-- Which signs the weights of a synapse group may have. -/
inductive SignMode where
  | mixed
  | excitatory
  | inhibitory
  deriving Repr, DecidableEq, Inhabited

namespace SignMode

/-- The names of the modes in parameter files and messages. -/
def name : SignMode → String
  | mixed => "Mixed"
  | excitatory => "Excitatory"
  | inhibitory => "Inhibitory"

/-- All modes, in the order in which they are listed to a reader. -/
def all : List SignMode :=
  [mixed, excitatory, inhibitory]

/-- The mantissas that a weight of this sign may have. -/
def range : SignMode → Bounds
  | mixed => { lower := -256, upper := 254 }
  | excitatory => { lower := 0, upper := 255 }
  | inhibitory => { lower := -256, upper := 0 }

end SignMode

/-- A stored weight: the mantissa, and the value that a spike delivers. -/
structure Weight where
  mantissa : Int
  actual : Int
  deriving Repr, DecidableEq, Inhabited

/-- How the weights of one synapse group are represented. -/
structure Quantizer where
  signMode : SignMode
  bits : Nat
  exponent : Int
  deriving Repr, DecidableEq

namespace Quantizer

/-- The number of bits of a mantissa. -/
def mantissaBits : Nat := 8

/-- The range of actual weights: 21 bits and a sign, the last six bits zero. -/
def actualRange : Bounds :=
  { lower := -2097088, upper := 2097088 }

/-- The bits that hold the magnitude; the sign of a mixed weight takes one of them. -/
def magnitudeBits (quantizer : Quantizer) : Int :=
  let bits : Int := min quantizer.bits mantissaBits
  match quantizer.signMode with
  | .mixed => bits - 1
  | .excitatory => bits
  | .inhibitory => bits

/-- The distance between two neighbouring mantissas. -/
def precision (quantizer : Quantizer) : Int :=
  (1 <<< (mantissaBits - quantizer.magnitudeBits).toNat : Nat)

/-- The value delivered by a synapse with the given mantissa. -/
def actualWeight (quantizer : Quantizer) (mantissa : Int) : Int :=
  let scaled := FixedPoint.scalePow2 mantissa quantizer.exponent
  actualRange.clamp (wrapSigned 64 (scaled * FixedPoint.mantissaUnit))

/-- The weight for a mantissa: brought into range, then moved toward zero onto the grid. -/
def quantize (quantizer : Quantizer) (mantissa : Int) : Weight :=
  let precision := quantizer.precision
  let onGrid := (quantizer.signMode.range.clamp mantissa).tdiv precision * precision
  { mantissa := onGrid, actual := quantizer.actualWeight onGrid }

/-- The value delivered by a synapse with the given mantissa, if the exponent is in range. -/
def actualWeight? (quantizer : Quantizer) (mantissa : Int) : Option Int :=
  if FixedPoint.exponentRange.Contains quantizer.exponent then
    some (quantizer.actualWeight mantissa)
  else
    none

/-- The weight for a mantissa, if the exponent is in range. -/
def quantize? (quantizer : Quantizer) (mantissa : Int) : Option Weight :=
  if FixedPoint.exponentRange.Contains quantizer.exponent then
    some (quantizer.quantize mantissa)
  else
    none

end Quantizer

end Neurochip
