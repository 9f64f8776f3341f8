import Lox.Token

set_option autoImplicit false

namespace Lox

inductive Diagnostic where
  | scan (line : Nat) (message : String)
  | parse (line : Nat) (location message : String)
  | runtime (line : Nat) (lexeme message : String)
deriving DecidableEq

namespace Diagnostic

def location (token : Token) : String :=
  if token.isEnd then " at end" else " at '" ++ token.lexeme ++ "'"

def parseAt (token : Token) (message : String) : Diagnostic :=
  .parse token.line (location token) message

def runtimeAt (token : Token) (message : String) : Diagnostic :=
  .runtime token.line token.lexeme message

def line : Diagnostic → Nat
  | .scan line _ => line
  | .parse line _ _ => line
  | .runtime line _ _ => line

def message : Diagnostic → String
  | .scan _ message => message
  | .parse _ _ message => message
  | .runtime _ _ message => message

def isRuntime : Diagnostic → Bool
  | .runtime .. => true
  | _ => false

def text : Diagnostic → String
  | .scan line message => "[line " ++ toString line ++ "] Error: " ++ message
  | .parse line location message => "[line " ++ toString line ++ "] Error" ++ location ++ ": " ++ message
  | .runtime line _ message => message ++ "\n[line " ++ toString line ++ "]"

end Diagnostic
end Lox
