import Lox.Diagnostic
import Lox.Env
import Lox.Expr

set_option autoImplicit false

namespace Lox

inductive RuntimeFault where
  | undefinedVariable
  | numberOperand
  | numberOperands
  | additionOperands
deriving DecidableEq

structure RuntimeError where
  fault : RuntimeFault
  token : Token

namespace RuntimeError

def message (error : RuntimeError) : String :=
  match error.fault with
  | .undefinedVariable => "Undefined variable '" ++ error.token.lexeme ++ "'."
  | .numberOperand => "Operand must be a number."
  | .numberOperands => "Operands must be numbers."
  | .additionOperands => "Operands must be two numbers or two strings."

def diagnostic (error : RuntimeError) : Diagnostic :=
  .runtimeAt error.token error.message

end RuntimeError

def Env.lookup (env : Env) (name : Token) : Except RuntimeError Value :=
  match env.get? name.lexeme with
  | some value => .ok value
  | none => .error ⟨.undefinedVariable, name⟩

namespace TokenKind

def applyUnary : TokenKind → Value → Except RuntimeFault Value
  | .mark .minus, .number x => .ok (.number (-x))
  | .mark .minus, _ => .error .numberOperand
  | .mark .bang, value => .ok (.boolean (!value.isTruthy))
  | _, _ => .ok .nil

-- Any other kind makes nil of two numbers.
def combineNumbers (kind : TokenKind) (x y : Float) : Value :=
  match kind with
  | .mark .minus => .number (x - y)
  | .mark .slash => .number (x / y)
  | .mark .star => .number (x * y)
  | .mark .greater => .boolean (decide (x > y))
  | .mark .greaterEqual => .boolean (decide (x ≥ y))
  | .mark .less => .boolean (decide (x < y))
  | .mark .lessEqual => .boolean (decide (x ≤ y))
  | _ => .nil

def add : Value → Value → Except RuntimeFault Value
  | .number x, .number y => .ok (.number (x + y))
  | .string s, .string t => .ok (.string (s ++ t))
  | _, _ => .error .additionOperands

def applyBinary (kind : TokenKind) (left right : Value) : Except RuntimeFault Value :=
  match kind with
  | .mark .equalEqual => .ok (.boolean (left == right))
  | .mark .bangEqual => .ok (.boolean (left != right))
  | .mark .plus => add left right
  | kind =>
    match left, right with
    | .number x, .number y => .ok (kind.combineNumbers x y)
    | _, _ => .error .numberOperands

end TokenKind

def Token.blame (operator : Token) : Except RuntimeFault Value → Except RuntimeError Value
  | .ok value => .ok value
  | .error fault => .error ⟨fault, operator⟩

def Expr.eval (env : Env) : Expr → Except RuntimeError Value
  | .literal value => .ok value
  | .name token => env.lookup token
  | .group inner => inner.eval env
  | .unary operator operand =>
    match operand.eval env with
    | .error error => .error error
    | .ok value => operator.blame (operator.kind.applyUnary value)
  | .binary left operator right =>
    match left.eval env with
    | .error error => .error error
    | .ok x =>
      match right.eval env with
      | .error error => .error error
      | .ok y => operator.blame (operator.kind.applyBinary x y)

end Lox
