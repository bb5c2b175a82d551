import Neurochip.Trace

namespace Neurochip.Rule

/-!
# Expressions over traces

A learning rule computes a weight change from the traces of a synapse with
sums, differences and products.  Every operation stays within signed words of
64 bits: a result that does not fit becomes the nearest end of that range.
-/

/-- The operations of learning rules. -/
inductive Operator where
  | add
  | sub
  | mul
  deriving Repr, DecidableEq

namespace Operator

/-- The sign of an operation. -/
def symbol : Operator → String
  | add => "+"
  | sub => "-"
  | mul => "*"

/-- The operation on unbounded integers. -/
def exact : Operator → Int → Int → Int
  | add, left, right => left + right
  | sub, left, right => left - right
  | mul, left, right => left * right

/-- The operation on signed words of 64 bits. -/
def apply (operator : Operator) (left right : Int) : Int :=
  Bounds.int64.clamp (operator.exact left right)

end Operator

/-- An expression tree. -/
inductive Expr where
  | literal (value : Int)
  | trace (channel : Channel)
  | binary (operator : Operator) (left right : Expr)
  deriving Repr, DecidableEq

namespace Expr

/-- The value of an expression at given traces. -/
def evaluate (traces : Traces) : Expr → Int
  | literal value => value
  | trace channel => traces.get channel
  | binary operator left right =>
      operator.apply (left.evaluate traces) (right.evaluate traces)

/-- The negation of an expression; a literal is negated on the spot. -/
def negate : Expr → Expr
  | literal value => literal (-value)
  | operand => binary .sub (literal 0) operand

/-- The expression negated several times. -/
def negateTimes : Nat → Expr → Expr
  | 0, operand => operand
  | count + 1, operand => negateTimes count operand.negate

/-- Whether some trace of an expression satisfies a condition. -/
def reads (condition : Channel → Bool) : Expr → Bool
  | literal _ => false
  | trace channel => condition channel
  | binary _ left right => left.reads condition || right.reads condition

/-- The number of nodes on the longest way from the root to a leaf. -/
def height : Expr → Nat
  | literal _ => 1
  | trace _ => 1
  | binary _ left right => max left.height right.height + 1

/-- The nodes of a tree with the operands before their operator. -/
def operandsFirst : Expr → List String
  | literal value => [toString value]
  | trace channel => [channel.name]
  | binary operator left right =>
      left.operandsFirst ++ right.operandsFirst ++ [operator.symbol]

end Expr

end Neurochip.Rule
