import Lox.Machine

/- What statements do in an environment, apart from any sink: the effects that they have, in
   order, and the fault that ends them. A machine performs this course until a write fails. -/
set_option autoImplicit false

namespace Lox

structure Course where
  effects : List Effect
  fault : Option RuntimeError

def Effect.output : Effect → String
  | .print text => text
  | _ => ""

def Effect.name? : Effect → Option String
  | .bind name _ => some name
  | _ => none

inductive Stmt.Has (env : Env) : Stmt → Effect → Prop where
  | expression {e : Expr} {v : Value} (value : e.eval env = .ok v) : Has env (.expression e) .nothing
  | print {e : Expr} {v : Value} (value : e.eval env = .ok v) :
      Has env (.print e) (.print (v.text ++ "\n"))
  | declare {name : Token} : Has env (.var name none) (.bind name.lexeme .nil)
  | define {name : Token} {e : Expr} {v : Value} (value : e.eval env = .ok v) :
      Has env (.var name (some e)) (.bind name.lexeme v)

inductive Stmt.Fails (env : Env) : Stmt → RuntimeError → Prop where
  | expression {e : Expr} {error : RuntimeError} (fails : e.eval env = .error error) :
      Fails env (.expression e) error
  | print {e : Expr} {error : RuntimeError} (fails : e.eval env = .error error) :
      Fails env (.print e) error
  | define {name : Token} {e : Expr} {error : RuntimeError} (fails : e.eval env = .error error) :
      Fails env (.var name (some e)) error

theorem mapped_ok {result : Except RuntimeError Value} {f : Value → Effect} {effect : Effect}
    (mapped : result.map f = .ok effect) : ∃ v, result = .ok v ∧ f v = effect := by
  cases result with
  | error error => cases mapped
  | ok v => exact ⟨v, rfl, Except.ok.inj mapped⟩

theorem has_effect {env : Env} {stmt : Stmt} {effect : Effect} (does : stmt.effect env = .ok effect) :
    stmt.Has env effect := by
  cases stmt with
  | expression e =>
    obtain ⟨v, value, rfl⟩ := mapped_ok does
    exact .expression value
  | print e =>
    obtain ⟨v, value, rfl⟩ := mapped_ok does
    exact .print value
  | var name initial =>
    cases initial with
    | none =>
      cases does
      exact .declare
    | some e =>
      obtain ⟨v, value, rfl⟩ := mapped_ok does
      exact .define value

theorem mapped_error {result : Except RuntimeError Value} {f : Value → Effect} {error : RuntimeError}
    (mapped : result.map f = .error error) : result = .error error := by
  cases result with
  | error found => exact congrArg Except.error (Except.error.inj mapped)
  | ok v => cases mapped

theorem fails_effect {env : Env} {stmt : Stmt} {error : RuntimeError}
    (fails : stmt.effect env = .error error) : stmt.Fails env error := by
  cases stmt with
  | expression e => exact .expression (mapped_error fails)
  | print e => exact .print (mapped_error fails)
  | var name initial =>
    cases initial with
    | none => cases fails
    | some e => exact .define (mapped_error fails)

namespace Env

def after (env : Env) : Effect → Env
  | .bind name value => env.define name value
  | _ => env

theorem get_after (env : Env) {effect : Effect} {name : String} (other : effect.name? ≠ some name) :
    (env.after effect).get? name = env.get? name := by
  cases effect with
  | bind bound value =>
    have apart : bound ≠ name := fun same => other (congrArg some same)
    rw [after, get_define, if_neg apart]
  | _ => rfl

def course (env : Env) : List Stmt → Course
  | [] => ⟨[], none⟩
  | stmt :: rest =>
    match stmt.effect env with
    | .error error => ⟨[], some error⟩
    | .ok effect =>
      let later := (env.after effect).course rest
      ⟨effect :: later.effects, later.fault⟩

theorem course_fault {env : Env} {stmt : Stmt} {error : RuntimeError} (rest : List Stmt)
    (fails : stmt.effect env = .error error) : env.course (stmt :: rest) = ⟨[], some error⟩ := by
  rw [course, fails]

theorem course_effect {env : Env} {stmt : Stmt} {effect : Effect} (rest : List Stmt)
    (does : stmt.effect env = .ok effect) :
    env.course (stmt :: rest) = ⟨effect :: ((env.after effect).course rest).effects,
      ((env.after effect).course rest).fault⟩ := by
  rw [course, does]

theorem course_append (env : Env) (first second : List Stmt) :
    env.course (first ++ second) =
      if (env.course first).fault.isSome then env.course first
      else
        let later := ((env.course first).effects.foldl after env).course second
        ⟨(env.course first).effects ++ later.effects, later.fault⟩ := by
  induction first generalizing env with
  | nil => rfl
  | cons stmt rest ih =>
    rw [List.cons_append]
    cases outcome : stmt.effect env with
    | error error =>
      rw [course_fault _ outcome, course_fault _ outcome]
      rfl
    | ok effect =>
      rw [course_effect _ outcome, course_effect _ outcome, ih]
      by_cases faulty : ((env.after effect).course rest).fault.isSome = true
      · rw [if_pos faulty, if_pos faulty]
      · rw [if_neg faulty, if_neg faulty]
        rfl

theorem course_take (env : Env) (stmts : List Stmt) {count : Nat}
    (inside : count ≤ (env.course stmts).effects.length) :
    env.course (stmts.take count) = ⟨(env.course stmts).effects.take count, none⟩ := by
  induction stmts generalizing env count with
  | nil =>
    obtain rfl : count = 0 := Nat.le_zero.mp inside
    rfl
  | cons stmt rest ih =>
    cases count with
    | zero => rfl
    | succ count =>
      cases outcome : stmt.effect env with
      | error error =>
        rw [course_fault rest outcome] at inside
        cases inside
      | ok effect =>
        rw [course_effect rest outcome] at inside ⊢
        rw [List.take_succ_cons, course_effect _ outcome, ih _ (Nat.le_of_succ_le_succ inside),
          List.take_succ_cons]

theorem course_before (env : Env) (stmts : List Stmt) :
    env.course (stmts.take (env.course stmts).effects.length) = ⟨(env.course stmts).effects, none⟩ := by
  rw [course_take env stmts (Nat.le_refl _), List.take_length]

theorem course_at (env : Env) (stmts : List Stmt) {count : Nat} {effect : Effect}
    (found : (env.course stmts).effects[count]? = some effect) :
    ∃ stmt, stmts[count]? = some stmt ∧
      stmt.effect (((env.course stmts).effects.take count).foldl after env) = .ok effect := by
  induction stmts generalizing env count with
  | nil => cases found
  | cons stmt rest ih =>
    cases outcome : stmt.effect env with
    | error error =>
      rw [course_fault rest outcome] at found
      cases found
    | ok first =>
      rw [course_effect rest outcome] at found ⊢
      cases count with
      | zero =>
        cases found
        exact ⟨stmt, rfl, outcome⟩
      | succ count => exact ih _ found

theorem course_whole (env : Env) (stmts : List Stmt) (sound : (env.course stmts).fault = none) :
    (env.course stmts).effects.length = stmts.length := by
  induction stmts generalizing env with
  | nil => rfl
  | cons stmt rest ih =>
    cases outcome : stmt.effect env with
    | error error =>
      rw [course_fault rest outcome] at sound
      cases sound
    | ok effect =>
      rw [course_effect rest outcome] at sound ⊢
      exact congrArg (· + 1) (ih _ sound)

theorem course_faulty (env : Env) (stmts : List Stmt) {error : RuntimeError}
    (faulty : (env.course stmts).fault = some error) :
    ∃ stmt, stmts[(env.course stmts).effects.length]? = some stmt ∧
      stmt.effect ((env.course stmts).effects.foldl after env) = .error error := by
  induction stmts generalizing env with
  | nil => cases faulty
  | cons stmt rest ih =>
    cases outcome : stmt.effect env with
    | error found =>
      rw [course_fault rest outcome] at faulty ⊢
      cases faulty
      exact ⟨stmt, rfl, outcome⟩
    | ok effect =>
      rw [course_effect rest outcome] at faulty ⊢
      exact ih _ faulty

theorem course_count (env : Env) (stmts : List Stmt) :
    (env.course stmts).effects.length ≤ stmts.length ∧
      ((env.course stmts).fault = none ↔ (env.course stmts).effects.length = stmts.length) := by
  cases faulty : (env.course stmts).fault with
  | none =>
    have same := course_whole env stmts faulty
    exact ⟨Nat.le_of_eq same, fun _ => same, fun _ => rfl⟩
  | some error =>
    obtain ⟨stmt, next, _⟩ := course_faulty env stmts faulty
    have short := (List.getElem?_eq_some_iff.mp next).1
    refine ⟨Nat.le_of_lt short, fun sound => ?_, fun same => absurd same (Nat.ne_of_lt short)⟩
    cases sound

theorem course_stopped {env : Env} {before : List Stmt} {stmt : Stmt} {error : RuntimeError}
    (rest : List Stmt) (sound : (env.course before).fault = none)
    (fails : stmt.effect ((env.course before).effects.foldl after env) = .error error) :
    env.course (before ++ stmt :: rest) = ⟨(env.course before).effects, some error⟩ := by
  have goes : ¬ (env.course before).fault.isSome = true := by simp [sound]
  rw [course_append, if_neg goes, course_fault rest fails]
  simp

end Env

structure Sink.Reliable (sink : Sink) : Prop where
  unlimited : sink.limit = none
  flushes : sink.flushFails = false

def Sink.InLimit (sink : Sink) : Prop :=
  ∀ limit, sink.limit = some limit → sink.written.size ≤ limit

theorem Sink.Reliable.in_limit {sink : Sink} (reliable : sink.Reliable) : sink.InLimit := by
  intro limit limited
  rw [reliable.unlimited] at limited
  cases limited

namespace Machine

def performAll (machine : Machine) : List Effect → Machine × Option SinkError
  | [] => (machine, none)
  | effect :: rest =>
    match machine.perform effect with
    | (machine, none) => machine.performAll rest
    | (machine, some error) => (machine, some error)

def follow (machine : Machine) (course : Course) : Machine × Option Halt :=
  match machine.performAll course.effects with
  | (machine, none) => (machine, course.fault.map .fault)
  | (machine, some error) => (machine, some (.sink error))

theorem perform_env (machine : Machine) (effect : Effect) :
    (machine.perform effect).1.env = machine.env.after effect := by
  cases effect <;> rfl

theorem execute_effect {machine : Machine} {stmt : Stmt} {effect : Effect}
    (does : stmt.effect machine.env = .ok effect) :
    machine.execute stmt = ((machine.perform effect).1, (machine.perform effect).2.map .sink) := by
  rw [execute, does]

theorem execute_fault {machine : Machine} {stmt : Stmt} {error : RuntimeError}
    (fails : stmt.effect machine.env = .error error) :
    machine.execute stmt = (machine, some (.fault error)) := by
  rw [execute, fails]

-- Sinks have no part in what the statements do, only in how much of it is done.
theorem execute_all_course (machine : Machine) (stmts : List Stmt) :
    machine.executeAll stmts = machine.follow (machine.env.course stmts) := by
  induction stmts generalizing machine with
  | nil => rfl
  | cons stmt rest ih =>
    rw [executeAll]
    cases outcome : stmt.effect machine.env with
    | error error =>
      rw [execute_fault outcome, Env.course_fault rest outcome]
      rfl
    | ok effect =>
      have env := machine.perform_env effect
      rw [execute_effect outcome, Env.course_effect rest outcome, follow, performAll]
      cases performed : machine.perform effect with
      | mk next failed =>
        rw [performed] at env
        cases failed with
        | none =>
          rw [← env]
          exact ih next
        | some error => rfl

theorem interpret_course (machine : Machine) (stmts : List Stmt) :
    machine.interpret stmts =
      match machine.performAll (machine.env.course stmts).effects with
      | (machine', none) =>
        machine'.conclude ((machine.env.course stmts).fault.toList.map RuntimeError.diagnostic)
      | (machine', some error) => (machine', ⟨[], .error error⟩) := by
  rw [interpret, execute_all_course, follow]
  cases machine.performAll (machine.env.course stmts).effects with
  | mk next failed =>
    cases failed with
    | some error => rfl
    | none => cases (machine.env.course stmts).fault <;> rfl

def afterAll (machine : Machine) (effects : List Effect) : Machine :=
  { env := effects.foldl Env.after machine.env
    sink := { machine.sink with
      written := machine.sink.written ++ (String.join (effects.map Effect.output)).toUTF8 } }

theorem after_all_nil (machine : Machine) : machine.afterAll [] = machine := by
  simp [afterAll]

theorem after_all_append (machine : Machine) (first second : List Effect) :
    (machine.afterAll first).afterAll second = machine.afterAll (first ++ second) := by
  simp [afterAll, ByteArray.append_assoc]

theorem after_all_cons (machine : Machine) (effect : Effect) (rest : List Effect) :
    machine.afterAll (effect :: rest) = (machine.afterAll [effect]).afterAll rest :=
  (machine.after_all_append [effect] rest).symm

theorem after_all_size (machine : Machine) (effects : List Effect) :
    machine.sink.written.size ≤ (machine.afterAll effects).sink.written.size := by
  simp [afterAll]

theorem perform_fits {machine : Machine} {effect : Effect}
    (fits : (machine.afterAll [effect]).sink.InLimit) :
    machine.perform effect = (machine.afterAll [effect], none) := by
  cases effect with
  | nothing => simp [perform, afterAll, Effect.output, Env.after]
  | bind name value => simp [perform, afterAll, Effect.output, Env.after]
  | print text =>
    cases limited : machine.sink.limit with
    | none => simp [perform, afterAll, Effect.output, Env.after, Sink.write, limited]
    | some limit =>
      have fits : (machine.sink.written ++ text.toUTF8).size ≤ limit := by
        simpa [afterAll, Effect.output] using fits limit limited
      simp only [perform, Sink.write, limited, if_pos fits]
      simp [afterAll, Effect.output, Env.after, limited]

theorem after_all_reliable {machine : Machine} (reliable : machine.sink.Reliable)
    (effects : List Effect) : (machine.afterAll effects).sink.Reliable :=
  ⟨reliable.unlimited, reliable.flushes⟩

theorem perform_all_fits {machine : Machine} {effects : List Effect}
    (fits : (machine.afterAll effects).sink.InLimit) :
    machine.performAll effects = (machine.afterAll effects, none) := by
  induction effects generalizing machine with
  | nil => rw [performAll, after_all_nil]
  | cons effect rest ih =>
    rw [after_all_cons] at fits ⊢
    have first : (machine.afterAll [effect]).sink.InLimit := fun limit limited =>
      Nat.le_trans (after_all_size _ rest) (fits limit limited)
    rw [performAll, perform_fits first]
    exact ih fits

theorem perform_all_reliable {machine : Machine} (reliable : machine.sink.Reliable)
    (effects : List Effect) : machine.performAll effects = (machine.afterAll effects, none) :=
  perform_all_fits (Sink.Reliable.in_limit ⟨reliable.unlimited, reliable.flushes⟩)

def flushed (machine : Machine) : Machine := { machine with sink := machine.sink.flush.1 }

theorem interpret_reliable {machine : Machine} (reliable : machine.sink.Reliable)
    (stmts : List Stmt) :
    machine.interpret stmts =
      ((machine.afterAll (machine.env.course stmts).effects).flushed,
        ⟨(machine.env.course stmts).fault.toList.map RuntimeError.diagnostic, .ok ()⟩) := by
  have flushes := reliable.flushes
  rw [interpret_course, perform_all_reliable reliable]
  simp [conclude, flushed, afterAll, Sink.flush, flushes]

theorem run_read (machine : Machine) {source : String} (scans : (scan source).errors = [])
    (reads : (Program.read (scan source).tokens).errors = []) :
    machine.run source =
      ((machine.interpret (Program.read (scan source).tokens).statements).1,
        (machine.interpret (Program.read (scan source).tokens).statements).2.conclusion) := by
  simp only [run, scans, reads, List.isEmpty_nil, if_true]

theorem run_misread (machine : Machine) {source : String} (scans : (scan source).errors = [])
    (misreads : (Program.read (scan source).tokens).errors ≠ []) :
    machine.run source = (machine, ⟨(Program.read (scan source).tokens).errors, .ok .staticError⟩) := by
  have some : ¬ (Program.read (scan source).tokens).errors.isEmpty = true := by simpa using misreads
  simp only [run, scans, List.isEmpty_nil, if_true, if_neg some]

theorem run_prints {machine : Machine} (reliable : machine.sink.Reliable) {source : String} {e : Expr}
    {v : Value} (scans : (scan source).errors = [])
    (reads : Program.read (scan source).tokens = ⟨[.print e], []⟩) (value : e.eval machine.env = .ok v) :
    machine.run source = ((machine.afterAll [.print (v.text ++ "\n")]).flushed, ⟨[], .ok .completed⟩) := by
  have effect : (Stmt.print e).effect machine.env = .ok (.print (v.text ++ "\n")) := by
    rw [Stmt.effect, value]
    rfl
  have course : machine.env.course [.print e] = ⟨[.print (v.text ++ "\n")], none⟩ :=
    Env.course_effect [] effect
  rw [machine.run_read scans (congrArg Program.errors reads), reads, interpret_reliable reliable, course]
  rfl

end Machine
end Lox
