import Lox.Token.Kind

/-!
# Runtime errors

Why a running program fails. The cause is known where the failure happens; the line is added on the
way out by the innermost construct that knows one, and is never changed after that.

* `Cause` — the causes, with `Cause.message` and `Cause.category`;
* `RuntimeError.locate` — adds a line to an error that has none;
* `RuntimeError.message` — the text of an error.
-/

namespace Lox

/-- **Categories** of runtime errors. -/
inductive Category
  | general
  | undefinedVariable | constAssignment
  | arityMismatch | notCallable | stackOverflow
  | operand
  deriving DecidableEq, Repr

/-- **Causes.** `callDepthExceeded` is the language's own limit on calls in progress, and
`roomExhausted` the host's limit on nested evaluation. A `report` is an error in the words of a
native function. -/
inductive Cause
  | undefinedVariable (name : String)
  | constAssignment (name : String)
  | arityMismatch (name : String) (expected got : Int)
  | notCallable
  | callDepthExceeded
  | roomExhausted
  | operandNotNumber
  | operandsNotNumbers
  | operandsNotAddable
  | unknownUnaryOperator
  | invalidBinaryOperator (kind : TokenKind)
  | report (category : Category) (text : String)
  deriving DecidableEq, Repr

/-- The category of a cause. -/
def Cause.category : Cause → Category
  | undefinedVariable _ => .undefinedVariable
  | constAssignment _ => .constAssignment
  | arityMismatch .. => .arityMismatch
  | notCallable => .notCallable
  | callDepthExceeded | roomExhausted => .stackOverflow
  | operandNotNumber | operandsNotNumbers | operandsNotAddable => .operand
  | unknownUnaryOperator | invalidBinaryOperator _ => .operand
  | report category _ => category

/-- **The text of a cause.** -/
def Cause.message : Cause → String
  | undefinedVariable name => "undefined variable '" ++ name ++ "'"
  | constAssignment name => "cannot assign to const '" ++ name ++ "'"
  | arityMismatch name expected got =>
    name ++ " expected " ++ toString expected ++ " arguments: got " ++ toString got
  | notCallable => "can only call functions"
  | callDepthExceeded | roomExhausted => "stack overflow"
  | operandNotNumber => "operand must be a number"
  | operandsNotNumbers => "operands must be numbers"
  | operandsNotAddable => "operands must be two numbers or two strings"
  | unknownUnaryOperator => "unknown unary operator"
  | invalidBinaryOperator kind => "invalid binary operator " ++ kind.describe
  | report _ text => text

/-- **Runtime errors.** -/
structure RuntimeError where
  cause : Cause
  line : Option Int
  deriving DecidableEq, Repr

namespace RuntimeError

/-- **Adds a line.** The innermost construct wins. -/
def locate (e : RuntimeError) (line : Option Int) : RuntimeError :=
  { e with line := e.line.or line }

/-- **The text of an error,** with its line if it has one. -/
def message (e : RuntimeError) : String :=
  match e.line with
  | none => e.cause.message
  | some line => "[line " ++ toString line ++ "] " ++ e.cause.message

end RuntimeError

end Lox
