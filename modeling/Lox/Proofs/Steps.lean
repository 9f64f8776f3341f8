import Lox.Proofs.Outcome
import Lox.Session

set_option autoImplicit false

namespace Lox

def Answer.errors : Answer → List Diagnostic
  | .ran report => report.errors
  | .interpreted report => report.errors
  | .executed (some (.fault error)) => [error.diagnostic]
  | _ => []

namespace Step

def effects (env : Env) : Step → List Effect
  | .run source => if staticErrors source = [] then (env.course (statementsOf source)).effects else []
  | .interpret stmts => (env.course stmts).effects
  | .execute stmt => (env.course [stmt]).effects
  | .define name value => [.bind name value]
  | .get _ => []

def flushes : Step → Bool
  | .run source => (staticErrors source).isEmpty
  | .interpret _ => true
  | _ => false

end Step

theorem Sink.since_size {sink earlier : Sink} :
    (sink.since earlier).size = sink.written.size - earlier.written.size := by
  rw [Sink.since, ByteArray.size_extract, Nat.min_self]

namespace Machine

-- A flush is the last thing done, and is not reached when a write fails.
def settle (machine : Machine) (flushes : Bool) (effects : List Effect) : Machine :=
  match machine.performAll effects with
  | (next, none) => if flushes then next.flushed else next
  | (next, some _) => next

theorem settle_sink (machine : Machine) (flushes : Bool) (effects : List Effect) :
    (machine.settle flushes effects).sink.limit = (machine.performAll effects).1.sink.limit ∧
      (machine.settle flushes effects).sink.written = (machine.performAll effects).1.sink.written := by
  rw [settle]
  cases machine.performAll effects with
  | mk next failed =>
    cases failed with
    | none => cases flushes <;> exact ⟨rfl, rfl⟩
    | some error => exact ⟨rfl, rfl⟩

theorem interpret_settle (machine : Machine) (stmts : List Stmt) :
    (machine.interpret stmts).1 = machine.settle true (machine.env.course stmts).effects := by
  rw [interpret_course, settle]
  cases machine.performAll (machine.env.course stmts).effects with
  | mk next failed => cases failed <;> rfl

theorem execute_settle (machine : Machine) (stmt : Stmt) :
    (machine.execute stmt).1 = machine.settle false (machine.env.course [stmt]).effects := by
  rw [settle]
  cases outcome : stmt.effect machine.env with
  | error error =>
    rw [execute_fault outcome, Env.course_fault [] outcome]
    rfl
  | ok effect =>
    rw [execute_effect outcome, Env.course_effect [] outcome, performAll]
    cases machine.perform effect with
    | mk next failed => cases failed <;> rfl

theorem run_settle (machine : Machine) (source : String) :
    (machine.run source).1 =
      machine.settle (Step.flushes (.run source)) (Step.effects machine.env (.run source)) := by
  rw [Step.effects, Step.flushes]
  by_cases silent : staticErrors source = []
  · rw [if_pos silent, silent, run_silent machine silent]
    exact machine.interpret_settle (statementsOf source)
  · rw [if_neg silent, run_static machine silent]
    simp [settle, performAll, silent]

theorem step_settle (machine : Machine) (step : Step) :
    (machine.step step).1 = machine.settle step.flushes (step.effects machine.env) := by
  cases step with
  | run source => exact machine.run_settle source
  | interpret stmts => exact machine.interpret_settle stmts
  | execute stmt => exact machine.execute_settle stmt
  | define name value => rfl
  | get name => rfl

def leave (machine : Machine) (steps : List Step) : Machine :=
  ((session machine steps).getLast?.map Turn.machine).getD machine

theorem leave_cons (machine : Machine) (step : Step) (rest : List Step) :
    machine.leave (step :: rest) = (machine.step step).1.leave rest := by
  rw [leave, leave, session, List.getLast?_cons]
  cases (session (machine.step step).1 rest).getLast? <;> rfl

end Machine
end Lox
