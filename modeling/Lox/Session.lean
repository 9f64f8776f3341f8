import Lox.Machine

set_option autoImplicit false

namespace Lox

inductive Step where
  | run (source : String)
  | interpret (stmts : List Stmt)
  | execute (stmt : Stmt)
  | define (name : String) (value : Value)
  | get (name : Token)

inductive Answer where
  | ran (report : Report Outcome)
  | interpreted (report : Report Unit)
  | executed (halt : Option Halt)
  | defined
  | got (result : Except RuntimeError Value)

namespace Machine

def step (machine : Machine) : Step → Machine × Answer
  | .run source =>
    let ran := machine.run source
    (ran.1, .ran ran.2)
  | .interpret stmts =>
    let ran := machine.interpret stmts
    (ran.1, .interpreted ran.2)
  | .execute stmt =>
    let ran := machine.execute stmt
    (ran.1, .executed ran.2)
  | .define name value => ({ machine with env := machine.env.define name value }, .defined)
  | .get name => (machine, .got (machine.env.lookup name))

end Machine

structure Turn where
  answer : Answer
  output : ByteArray
  machine : Machine

def session (machine : Machine) : List Step → List Turn
  | [] => []
  | step :: rest =>
    let taken := machine.step step
    ⟨taken.2, taken.1.sink.since machine.sink, taken.1⟩ :: session taken.1 rest

end Lox
