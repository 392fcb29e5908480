/-
What can go wrong while a program runs.

A fault is raised at a token when the program itself is to blame. The other faults have no token:
they come from trees that no script gives rise to, or from the sink that takes the output.
-/
import Lox.Store
import Lox.Diagnostic

namespace Lox

/-- What a program did wrong. -/
inductive Cause where
  | operandNotNumber
  | operandsNotNumbers
  | operandsMixed
  | binding (fault : BindingFault)
  | notCallable
  | wrongArity (expected : Int) (got : Nat)
  | tooDeep
  | native (text : Bytes)
deriving DecidableEq

namespace Cause

/-- The wording of a cause. -/
def message : Cause → Bytes
  | operandNotNumber => utf8 "Operand must be a number."
  | operandsNotNumbers => utf8 "Operands must be numbers."
  | operandsMixed => utf8 "Operands must be two numbers or two strings."
  | binding fault => fault.message
  | notCallable => utf8 "Can only call functions and classes."
  | wrongArity expected got =>
    utf8 "Expected " ++ Bytes.ofInt expected ++ utf8 " arguments but got " ++ Bytes.ofNat got ++
      utf8 "."
  | tooDeep => utf8 "Stack overflow."
  | native text => text

end Cause

/-- A fault of a running program. -/
inductive Fault where
  /-- The program is to blame, at this token. -/
  | raised (token : Token) (cause : Cause)
  /-- An expression that is absent was to be evaluated. -/
  | absentExpression
  /-- A literal holds a constant of the host. -/
  | hostLiteral
  /-- The operator cannot stand before an operand. -/
  | unaryOperator (lexeme : Bytes)
  /-- The operator cannot stand between operands. -/
  | binaryOperator (lexeme : Bytes)
  /-- A function that has no code was called. -/
  | noCode
  /-- A return outside any function was carried out. -/
  | strayReturn
  /-- The sink took no more output. -/
  | sinkFailed (reason : Bytes)

namespace Fault

/-- The wording of a fault, without its line. -/
def message : Fault → Bytes
  | raised _ cause => cause.message
  | absentExpression => utf8 "unsupported expression type: <nil>"
  | hostLiteral => utf8 "unsupported literal int"
  | unaryOperator lexeme => utf8 "unsupported unary operator " ++ lexeme
  | binaryOperator lexeme => utf8 "unsupported binary operator " ++ lexeme
  | noCode => utf8 "runtime error: invalid memory address or nil pointer dereference"
  | strayReturn => utf8 "return outside function"
  | sinkFailed reason => utf8 "print: " ++ reason

/-- The line of a fault; a fault without a token is on line 0. -/
def line : Fault → Int
  | raised token _ => token.line
  | _ => 0

/-- The text of a fault: only a fault at a token tells its line. -/
def text : Fault → Bytes
  | raised token cause => Diagnostic.withLineBelow cause.message token.line
  | fault => fault.message

/-- The diagnostic of a fault. -/
def diagnostic (f : Fault) : Diagnostic := ⟨.runtime, f.line, [], f.message⟩

end Fault

end Lox
