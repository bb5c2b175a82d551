import Neurochip.Rule.Parser

namespace Neurochip

/-!
# Learning rules

A learning rule is the text a user wrote together with its expression tree.  It
is evaluated after a spike on that side of the synapse whose traces it reads; a
rule without traces is evaluated after any spike.
-/

/-- A parsed rule. -/
structure LearningRule where
  source : String
  expr : Rule.Expr
  deriving Repr, DecidableEq

namespace LearningRule

/-- Parses a rule. -/
def parse (source : String) : Except Rule.Error LearningRule := do
  let tokens ← Rule.Token.ofSource source
  let expr ← Rule.Expr.ofTokens tokens source.utf8ByteSize
  return { source := source, expr := expr }

/-- The rule of a synapse group; a blank text disables learning. -/
def parse? (source : String) : Except Rule.Error (Option LearningRule) :=
  if isBlankText source then
    return none
  else do
    let rule ← parse source
    return some rule

/-- The weight change at given traces. -/
def evaluate (rule : LearningRule) (traces : Traces) : Int :=
  rule.expr.evaluate traces

/-- Whether a rule reads a trace of the source side. -/
def readsPre (rule : LearningRule) : Bool :=
  rule.expr.reads Channel.isPre

/-- Whether a rule reads a trace of the target side. -/
def readsPost (rule : LearningRule) : Bool :=
  rule.expr.reads fun channel => !channel.isPre

/-- Whether a step with spikes on the given sides requires evaluating a rule. -/
def isTriggered (rule : LearningRule) (pre post : Bool) : Bool :=
  if !rule.readsPre && !rule.readsPost then
    pre || post
  else
    (pre && rule.readsPre) || (post && rule.readsPost)

end LearningRule

end Neurochip
