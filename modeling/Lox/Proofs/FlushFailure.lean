import Lox.Proofs.Steps
import Mathlib.Data.List.Forall2

set_option autoImplicit false

namespace Lox

def Sink.unflushable (sink : Sink) : Sink := { sink with flushFails := true }

def Machine.unflushable (machine : Machine) : Machine :=
  { machine with sink := machine.sink.unflushable }

def Report.unflushed {α : Type} (report : Report α) : Report α :=
  match report.result with
  | .ok _ => ⟨report.errors, .error .flushFailed⟩
  | .error _ => report

def Answer.unflushed : Answer → Answer
  | .ran ⟨errors, .ok .staticError⟩ => .ran ⟨errors, .ok .staticError⟩
  | .ran report => .ran report.unflushed
  | .interpreted report => .interpreted report.unflushed
  | .executed halt => .executed halt
  | .defined => .defined
  | .got result => .got result

structure Turn.Unflushed (turn other : Turn) : Prop where
  answer : other.answer = turn.answer.unflushed
  errors : other.answer.errors = turn.answer.errors
  output : other.output = turn.output
  env : other.machine.env = turn.machine.env
  sink : other.machine.sink = turn.machine.sink.unflushable

theorem write_unflushable (sink : Sink) (text : String) :
    sink.unflushable.write text = ((sink.write text).1.unflushable, (sink.write text).2) := by
  have held : sink.unflushable.written = sink.written := rfl
  have limited : sink.unflushable.limit = sink.limit := rfl
  rw [Sink.write, Sink.write, held, limited]
  cases sink.limit with
  | none => rfl
  | some limit =>
    dsimp only
    split
    · rfl
    · rfl

theorem answer_errors (answer : Answer) : answer.unflushed.errors = answer.errors := by
  have kept {α : Type} (report : Report α) : report.unflushed.errors = report.errors := by
    rw [Report.unflushed]
    split <;> rfl
  rw [Answer.unflushed.eq_def]
  split
  · rfl
  · exact kept _
  · exact kept _
  · rfl
  · rfl
  · rfl

theorem answer_conclusion (report : Report Unit) :
    (Answer.ran report.conclusion).unflushed = .ran report.unflushed.conclusion := by
  obtain ⟨errors, result⟩ := report
  cases result with
  | error error => rfl
  | ok _ => cases errors <;> rfl

namespace Machine

theorem perform_unflushable (machine : Machine) (effect : Effect) :
    machine.unflushable.perform effect =
      ((machine.perform effect).1.unflushable, (machine.perform effect).2) := by
  cases effect with
  | print text =>
    rw [perform, unflushable, write_unflushable]
    rfl
  | _ => rfl

theorem perform_all_unflushable (machine : Machine) (effects : List Effect) :
    machine.unflushable.performAll effects =
      ((machine.performAll effects).1.unflushable, (machine.performAll effects).2) := by
  induction effects generalizing machine with
  | nil => rfl
  | cons effect rest ih =>
    rw [performAll, performAll, perform_unflushable]
    cases machine.perform effect with
    | mk next failed =>
      cases failed with
      | none => exact ih next
      | some error => rfl

theorem execute_unflushable (machine : Machine) (stmt : Stmt) :
    machine.unflushable.execute stmt =
      ((machine.execute stmt).1.unflushable, (machine.execute stmt).2) := by
  cases outcome : stmt.effect machine.env with
  | error error =>
    have fails : stmt.effect machine.unflushable.env = .error error := outcome
    rw [execute_fault outcome, execute_fault fails]
  | ok effect =>
    have does : stmt.effect machine.unflushable.env = .ok effect := outcome
    rw [execute_effect outcome, execute_effect does, perform_unflushable]

theorem interpret_unflushable (machine : Machine) (stmts : List Stmt) :
    machine.unflushable.interpret stmts =
      ((machine.interpret stmts).1.unflushable, (machine.interpret stmts).2.unflushed) := by
  have env : machine.unflushable.env = machine.env := rfl
  rw [interpret_course, interpret_course, env, perform_all_unflushable]
  cases machine.performAll (machine.env.course stmts).effects with
  | mk next failed =>
    cases failed with
    | some error => rfl
    | none =>
      simp only [conclude, Report.unflushed, Sink.flush]
      cases next.sink.flushFails <;> rfl

theorem step_unflushable (machine : Machine) (step : Step) :
    machine.unflushable.step step =
      ((machine.step step).1.unflushable, (machine.step step).2.unflushed) := by
  cases step with
  | run source =>
    change ((machine.unflushable.run source).1, Answer.ran (machine.unflushable.run source).2) =
      ((machine.run source).1.unflushable, (Answer.ran (machine.run source).2).unflushed)
    by_cases silent : staticErrors source = []
    · rw [run_silent _ silent, run_silent _ silent, interpret_unflushable, answer_conclusion]
    · rw [run_static _ silent, run_static _ silent]
      rfl
  | interpret stmts =>
    change ((machine.unflushable.interpret stmts).1, Answer.interpreted _) = _
    rw [interpret_unflushable]
    rfl
  | execute stmt =>
    change ((machine.unflushable.execute stmt).1, Answer.executed _) = _
    rw [execute_unflushable]
    rfl
  | define name value => rfl
  | get name => rfl

end Machine

theorem session_unflushed (machine : Machine) (steps : List Step) :
    List.Forall₂ Turn.Unflushed (session machine steps) (session machine.unflushable steps) := by
  induction steps generalizing machine with
  | nil => exact .nil
  | cons step rest ih =>
    have taken := machine.step_unflushable step
    rw [session, session, taken]
    exact .cons ⟨rfl, answer_errors _, rfl, rfl, rfl⟩ (ih _)

end Lox
