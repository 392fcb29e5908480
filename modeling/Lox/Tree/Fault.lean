/-
What can be wrong with the order of tokens.
-/
import Lox.Diagnostic

namespace Lox

/-- The ways in which a token list can fail to be a program. -/
inductive ParseProblem where
  | noExpression
  | invalidTarget
  | tooManyArguments
  | tooManyParameters
  | unclosedArguments
  | unclosedGroup
  | noVariableName
  | unendedVariable
  | noFunctionName
  | unopenedParameters
  | noParameterName
  | unclosedParameters
  | unopenedBody
  | unopenedFor
  | unendedCondition
  | unclosedFor
  | unopenedIf
  | unclosedIf
  | unendedPrint
  | unendedReturn
  | unopenedWhile
  | unclosedWhile
  | unclosedBlock
  | unendedExpression
deriving DecidableEq, Repr

namespace ParseProblem

/-- The wording of a problem. -/
def wording : ParseProblem → String
  | noExpression => "Expect expression."
  | invalidTarget => "Invalid assignment target."
  | tooManyArguments => "Can't have more than 255 arguments."
  | tooManyParameters => "Can't have more than 255 parameters."
  | unclosedArguments => "Expect ')' after arguments."
  | unclosedGroup => "Expect ')' after expression."
  | noVariableName => "Expect variable name."
  | unendedVariable => "Expect ';' after variable declaration."
  | noFunctionName => "Expect function name."
  | unopenedParameters => "Expect '(' after function name."
  | noParameterName => "Expect parameter name."
  | unclosedParameters => "Expect ')' after parameters."
  | unopenedBody => "Expect '\x7b' before function body."
  | unopenedFor => "Expect '(' after 'for'."
  | unendedCondition => "Expect ';' after loop condition."
  | unclosedFor => "Expect ')' after for clauses."
  | unopenedIf => "Expect '(' after 'if'."
  | unclosedIf => "Expect ')' after if condition."
  | unendedPrint => "Expect ';' after value."
  | unendedReturn => "Expect ';' after return value."
  | unopenedWhile => "Expect '(' after 'while'."
  | unclosedWhile => "Expect ')' after condition."
  | unclosedBlock => "Expect '\x7d' after block."
  | unendedExpression => "Expect ';' after expression."

end ParseProblem

/-- A problem and the token at which it showed. -/
structure ParseFault where
  token : Token
  problem : ParseProblem

namespace ParseFault

/-- The diagnostic of a parse fault. -/
def diagnostic (f : ParseFault) : Diagnostic :=
  .atToken .parse f.token (utf8 f.problem.wording)

end ParseFault

end Lox
