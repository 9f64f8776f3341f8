import Lox.Diagnostic
import Lox.Reader

set_option autoImplicit false

namespace Lox
namespace Stmt

def close (expected : Expectation) (stmt : Stmt) : List Token → Reading Stmt
  | [] => .error ⟨expected, []⟩
  | token :: rest =>
    if token.isMark .semicolon then .ok (stmt, rest) else .error ⟨expected, token :: rest⟩

def readInitial : List Token → Reading (Option Expr)
  | [] => .ok (none, [])
  | token :: rest =>
    if token.isMark .equal then (Expr.read rest).andThen fun value rest => .ok (some value, rest)
    else .ok (none, token :: rest)

def readVar : List Token → Reading Stmt
  | [] => .error ⟨.variableName, []⟩
  | name :: rest =>
    if name.isName then
      (readInitial rest).andThen fun initial => close .declarationEnd (.var name initial)
    else .error ⟨.variableName, name :: rest⟩

def readPrint (tokens : List Token) : Reading Stmt :=
  (Expr.read tokens).andThen fun value => close .valueEnd (.print value)

def readExpression (tokens : List Token) : Reading Stmt :=
  (Expr.read tokens).andThen fun value => close .expressionEnd (.expression value)

def read : List Token → Reading Stmt
  | [] => readExpression []
  | token :: rest =>
    if token.isKeyword .var then readVar rest
    else if token.isKeyword .print then readPrint rest
    else readExpression (token :: rest)

theorem close_suffix (expected : Expectation) (stmt : Stmt) (tokens : List Token) :
    (close expected stmt tokens).rest <:+ tokens := by
  cases tokens with
  | nil => exact List.suffix_refl _
  | cons token rest =>
    rw [close]
    split
    · exact List.suffix_cons token rest
    · exact List.suffix_refl _

theorem close_progress {expected : Expectation} {stmt result : Stmt} {tokens rest : List Token}
    (accepted : close expected stmt tokens = .ok (result, rest)) : rest.length < tokens.length := by
  cases tokens with
  | nil => cases accepted
  | cons token after =>
    rw [close] at accepted
    split at accepted
    · cases accepted
      simp
    · cases accepted

theorem read_initial_suffix (tokens : List Token) : (readInitial tokens).rest <:+ tokens := by
  cases tokens with
  | nil => exact List.suffix_refl _
  | cons token rest =>
    rw [readInitial]
    split
    · exact Reading.and_then_suffix
        ((Expr.read_from_suffix .equality rest).trans (List.suffix_cons token rest))
        fun _ rest => List.suffix_refl rest
    · exact List.suffix_refl _

theorem read_var_suffix (tokens : List Token) : (readVar tokens).rest <:+ tokens := by
  cases tokens with
  | nil => exact List.suffix_refl _
  | cons name rest =>
    rw [readVar]
    split
    · exact (Reading.and_then_suffix (read_initial_suffix rest) fun _ => close_suffix _ _).trans
        (List.suffix_cons name rest)
    · exact List.suffix_refl _

theorem read_print_suffix (tokens : List Token) : (readPrint tokens).rest <:+ tokens :=
  Reading.and_then_suffix (Expr.read_from_suffix .equality tokens) fun _ => close_suffix _ _

theorem read_expression_suffix (tokens : List Token) : (readExpression tokens).rest <:+ tokens :=
  Reading.and_then_suffix (Expr.read_from_suffix .equality tokens) fun _ => close_suffix _ _

theorem read_suffix (tokens : List Token) : (read tokens).rest <:+ tokens := by
  cases tokens with
  | nil => exact read_expression_suffix []
  | cons token rest =>
    rw [read]
    split
    · exact (read_var_suffix rest).trans (List.suffix_cons token rest)
    · split
      · exact (read_print_suffix rest).trans (List.suffix_cons token rest)
      · exact read_expression_suffix (token :: rest)

theorem read_expression_progress {tokens rest : List Token} {stmt : Stmt}
    (accepted : readExpression tokens = .ok (stmt, rest)) : rest.length < tokens.length := by
  have inside := (Expr.read_from_suffix .equality tokens).length_le
  rw [readExpression, Expr.read] at accepted
  cases result : Expr.readFrom .equality tokens with
  | error failure =>
    rw [result] at accepted
    cases accepted
  | ok pair =>
    rw [result] at accepted inside
    have closed : rest.length < pair.2.length := close_progress accepted
    exact Nat.lt_of_lt_of_le closed inside

theorem read_progress {tokens rest : List Token} {stmt : Stmt}
    (accepted : read tokens = .ok (stmt, rest)) : rest.length < tokens.length := by
  cases tokens with
  | nil => exact read_expression_progress accepted
  | cons token after =>
    have var := (read_var_suffix after).length_le
    have print := (read_print_suffix after).length_le
    rw [read] at accepted
    split at accepted
    · rw [accepted] at var
      exact Nat.lt_succ_of_le var
    · split at accepted
      · rw [accepted] at print
        exact Nat.lt_succ_of_le print
      · exact read_expression_progress accepted

end Stmt

namespace Token

def startsStatement (token : Token) : Bool :=
  match token.kind with
  | .keyword .class | .keyword .fun | .keyword .var | .keyword .for | .keyword .if
  | .keyword .while | .keyword .print | .keyword .return => true
  | _ => false

end Token

namespace Program

-- Drops at least one token, then stops after a semicolon or before a keyword that
-- starts a statement.
def resume : List Token → List Token
  | [] => []
  | token :: rest =>
    if token.isMark .semicolon || rest.head?.any Token.startsStatement then rest else resume rest

theorem resume_shorter (tokens : List Token) : (resume tokens).length ≤ tokens.length - 1 := by
  induction tokens with
  | nil => exact Nat.le_refl _
  | cons token rest ih =>
    rw [resume]
    split
    · exact Nat.le_refl _
    · simp
      omega

def attempts : List Token → List (Except Failure Stmt)
  | [] => []
  | token :: rest =>
    match _ : Stmt.read (token :: rest) with
    | .ok (stmt, later) => .ok stmt :: attempts later
    | .error failure => .error failure :: attempts (resume failure.rest)
termination_by tokens => tokens.length
decreasing_by
  · exact Stmt.read_progress ‹_›
  · have inside := (Stmt.read_suffix (token :: rest)).length_le
    rw [‹Stmt.read (token :: rest) = _›] at inside
    have shorter := resume_shorter failure.rest
    simp only [Reading.rest, List.length_cons] at inside ⊢
    omega

end Program

structure Program where
  statements : List Stmt
  errors : List Diagnostic
deriving BEq

namespace Program

def stmt? : Except Failure Stmt → Option Stmt
  | .ok stmt => some stmt
  | .error _ => none

def diagnostic? (last : Token) : Except Failure Stmt → Option Diagnostic
  | .ok _ => none
  | .error failure => some (.parseAt (failure.rest.headD last) failure.expected.message)

-- The first end token ends the program.
def read (tokens : List Token) : Program :=
  match tokens.find? Token.isEnd with
  | none => ⟨[], []⟩
  | some last =>
    let tried := attempts (tokens.takeWhile fun token => !token.isEnd)
    ⟨tried.filterMap stmt?, tried.filterMap (diagnostic? last)⟩

end Program
end Lox
