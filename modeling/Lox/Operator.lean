import Lox.RuntimeError
import Lox.Value

/-!
# Operators

What the operators compute on values, by the kind of their token. Arithmetic is that of IEEE 754
doubles and never fails; only the kinds of the operands can be wrong. The host divides by every number
but a zero, for which the quotient of IEEE 754 is put together here.

* `Number.quotient` — the quotient of two numbers;
* `applyUnary`, `applyBinary` — the value of an operation, or the cause of its failure.
-/

namespace Lox

namespace Number

/-- The number `x` with the sign of `y`. -/
def copySign (x y : Float) : Float := if (anatomy y).isNegative then -x.abs else x.abs

/-- **The host's division,** which can only be asked for the quotient by a number that is not zero. -/
def hostQuotient (x y : Float) (_ : ¬ (y == 0) = true) : Float := x / y

/-- **The quotient of two numbers.** By a zero it is an infinity, with the product of both signs; a
zero and what is no number have none. -/
def quotient (x y : Float) : Float :=
  if h : y == 0 then
    if x == 0 || x.isNaN then notANumber else copySign infinity x * copySign 1 y
  else hostQuotient x y h

end Number

/-- **Operators before one operand.** -/
def applyUnary (kind : TokenKind) (operand : Value) : Except Cause Value :=
  match kind, operand with
  | .bang, v => .ok (.bool !v.isTruthy)
  | .minus, .number x => .ok (.number (-x))
  | .minus, _ => .error .operandNotNumber
  | _, _ => .error .unknownUnaryOperator

/-- **Operators between two numbers.** -/
def applyArithmetic (kind : TokenKind) (x y : Float) : Except Cause Value :=
  match kind with
  | .minus => .ok (.number (x - y))
  | .star => .ok (.number (x * y))
  | .slash => .ok (.number (Number.quotient x y))
  | .less => .ok (.bool (x < y))
  | .lessEqual => .ok (.bool (x ≤ y))
  | .greater => .ok (.bool (y < x))
  | .greaterEqual => .ok (.bool (y ≤ x))
  | kind => .error (.invalidBinaryOperator kind)

/-- **Operators between two operands.** All values can be compared for equality, strings and numbers
can be added, and everything else is for numbers. -/
def applyBinary (kind : TokenKind) (left right : Value) : Except Cause Value :=
  match kind with
  | .equalEqual => .ok (.bool (left.equals right))
  | .bangEqual => .ok (.bool !(left.equals right))
  | .plus =>
    match left, right with
    | .string s, .string t => .ok (.string (s ++ t))
    | .number x, .number y => .ok (.number (x + y))
    | _, _ => .error .operandsNotAddable
  | kind =>
    match left, right with
    | .number x, .number y => applyArithmetic kind x y
    | _, _ => .error .operandsNotNumbers

end Lox
