import Lox.Evaluation
import Lox.Program
import Lox.Sink
import Lox.Source

set_option autoImplicit false

namespace Lox

inductive Effect where
  | nothing
  | bind (name : String) (value : Value)
  | print (text : String)

def Stmt.effect (env : Env) : Stmt → Except RuntimeError Effect
  | .expression value => (value.eval env).map fun _ => .nothing
  | .print value => (value.eval env).map fun value => .print (value.text ++ "\n")
  | .var name none => .ok (.bind name.lexeme .nil)
  | .var name (some value) => (value.eval env).map (.bind name.lexeme)

inductive Halt where
  | fault (error : RuntimeError)
  | sink (error : SinkError)

-- A failure to write is no error of the program, so it is told apart from the errors.
structure Report (α : Type) where
  errors : List Diagnostic
  result : Except SinkError α

inductive Outcome where
  | completed
  | staticError
  | runtimeError
deriving DecidableEq

def Report.conclusion (report : Report Unit) : Report Outcome :=
  let outcome := if report.errors.isEmpty then Outcome.completed else .runtimeError
  ⟨report.errors, report.result.map fun _ => outcome⟩

structure Machine where
  env : Env
  sink : Sink

namespace Machine

def new (sink : Sink) : Machine := ⟨.empty, sink⟩

def perform (machine : Machine) : Effect → Machine × Option SinkError
  | .nothing => (machine, none)
  | .bind name value => ({ machine with env := machine.env.define name value }, none)
  | .print text =>
    let written := machine.sink.write text
    ({ machine with sink := written.1 }, written.2)

def execute (machine : Machine) (stmt : Stmt) : Machine × Option Halt :=
  match stmt.effect machine.env with
  | .error error => (machine, some (.fault error))
  | .ok effect =>
    let performed := machine.perform effect
    (performed.1, performed.2.map .sink)

def executeAll (machine : Machine) : List Stmt → Machine × Option Halt
  | [] => (machine, none)
  | stmt :: rest =>
    match machine.execute stmt with
    | (machine, none) => machine.executeAll rest
    | (machine, some halt) => (machine, some halt)

def conclude (machine : Machine) (errors : List Diagnostic) : Machine × Report Unit :=
  let flushed := machine.sink.flush
  ({ machine with sink := flushed.1 }, ⟨errors, flushed.2.elim (.ok ()) .error⟩)

-- A fault ends the statements but not the output; a failed write ends both.
def interpret (machine : Machine) (stmts : List Stmt) : Machine × Report Unit :=
  match machine.executeAll stmts with
  | (machine, none) => machine.conclude []
  | (machine, some (.fault error)) => machine.conclude [error.diagnostic]
  | (machine, some (.sink error)) => (machine, ⟨[], .error error⟩)

def run (machine : Machine) (source : String) : Machine × Report Outcome :=
  let scanned := scan source
  if scanned.errors.isEmpty then
    let program := Program.read scanned.tokens
    if program.errors.isEmpty then
      let interpreted := machine.interpret program.statements
      (interpreted.1, interpreted.2.conclusion)
    else (machine, ⟨program.errors, .ok .staticError⟩)
  else (machine, ⟨scanned.errors, .ok .staticError⟩)

end Machine
end Lox
