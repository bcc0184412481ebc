import Stencil.Condition.Evaluation
import Stencil.Condition.Expression.Parser
import Stencil.Condition.Token.Lexer

/-!
# Conditions

A condition is kept with the text that it was read from.
-/

namespace Stencil

/-- A condition. -/
structure Condition where
  /-- The text of the condition. -/
  source : String
  /-- What the text says. -/
  expression : Condition.Expression

namespace Condition

/-- The expression that a text is. -/
def Expression.parse (source : String) : Except SyntaxFault Expression := do
  let tokens ← tokens source.toList
  Expression.ofTokens tokens

/-- The condition that a text is. -/
def parse (source : String) : Except SyntaxFault Condition := do
  let expression ← Expression.parse source
  return { source, expression }

/-- Whether the condition holds, given the values of names. -/
def holds (condition : Condition) (names : Namespace) : Except EvaluationFault Bool := do
  let value ← condition.expression.evaluate names
  return value.isTruthy

end Condition

end Stencil
