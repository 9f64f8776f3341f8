import Lox.Token
import Lox.Value

set_option autoImplicit false

namespace Lox

inductive Expr where
  | literal (value : Value)
  | name (token : Token)
  | group (inner : Expr)
  | unary (operator : Token) (operand : Expr)
  | binary (left : Expr) (operator : Token) (right : Expr)
deriving BEq

inductive Stmt where
  | expression (value : Expr)
  | print (value : Expr)
  | var (name : Token) (initial : Option Expr)
deriving BEq

namespace Expr

def parenthesized (head : String) (parts : List String) : String :=
  "(" ++ String.intercalate " " (head :: parts) ++ ")"

def text : Expr → String
  | .literal value => value.text
  | .name token => token.lexeme
  | .group inner => parenthesized "group" [inner.text]
  | .unary operator operand => parenthesized operator.lexeme [operand.text]
  | .binary left operator right => parenthesized operator.lexeme [left.text, right.text]

end Expr

def Stmt.expr? : Stmt → Option Expr
  | .expression value => some value
  | .print value => some value
  | .var _ initial => initial

end Lox
