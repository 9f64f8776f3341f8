import Lox.Proofs.Course
import Mathlib.Logic.ExistsUnique

set_option autoImplicit false

namespace Lox
namespace Env

def Binds (env : Env) (name : String) (value : Value) (next : Env) : Prop :=
  ∀ query, next.get? query = if name = query then some value else env.get? query

inductive Does : Env → List Stmt → String → Env → Prop where
  | nothing {env : Env} : Does env [] "" env
  | expression {env last : Env} {e : Expr} {v : Value} {rest : List Stmt} {output : String}
      (value : e.eval env = .ok v) (later : Does env rest output last) :
      Does env (.expression e :: rest) output last
  | print {env last : Env} {e : Expr} {v : Value} {rest : List Stmt} {output : String}
      (value : e.eval env = .ok v) (later : Does env rest output last) :
      Does env (.print e :: rest) (v.text ++ "\n" ++ output) last
  | declare {env next last : Env} {name : Token} {rest : List Stmt} {output : String}
      (binds : env.Binds name.lexeme .nil next) (later : Does next rest output last) :
      Does env (.var name none :: rest) output last
  | define {env next last : Env} {name : Token} {e : Expr} {v : Value} {rest : List Stmt}
      {output : String} (value : e.eval env = .ok v) (binds : env.Binds name.lexeme v next)
      (later : Does next rest output last) : Does env (.var name (some e) :: rest) output last

theorem binds_define (env : Env) (name : String) (value : Value) :
    env.Binds name value (env.define name value) := by
  intro query
  exact get_define env name query value

theorem does_effect {env last : Env} {stmt : Stmt} {effect : Effect} {rest : List Stmt}
    {output : String} (does : stmt.effect env = .ok effect)
    (later : (env.after effect).Does rest output last) :
    env.Does (stmt :: rest) (effect.output ++ output) last := by
  cases has_effect does with
  | expression value =>
    simp only [Effect.output, String.empty_append]
    exact .expression value later
  | print value => exact .print value later
  | declare =>
    simp only [Effect.output, String.empty_append]
    exact .declare (binds_define _ _ _) later
  | define value =>
    simp only [Effect.output, String.empty_append]
    exact .define value (binds_define _ _ _) later

theorem does_course {env : Env} {stmts : List Stmt} (sound : (env.course stmts).fault = none) :
    env.Does stmts (String.join ((env.course stmts).effects.map Effect.output))
      ((env.course stmts).effects.foldl after env) := by
  induction stmts generalizing env with
  | nil => exact .nothing
  | cons stmt rest ih =>
    cases outcome : stmt.effect env with
    | error error =>
      rw [course_fault rest outcome] at sound
      cases sound
    | ok effect =>
      rw [course_effect rest outcome] at sound ⊢
      rw [List.map_cons, List.foldl_cons, String.join_cons]
      exact does_effect outcome (ih sound)

theorem does_before (env : Env) (stmts : List Stmt) :
    env.Does (stmts.take (env.course stmts).effects.length)
      (String.join ((env.course stmts).effects.map Effect.output))
      ((env.course stmts).effects.foldl after env) := by
  have before := env.course_before stmts
  have does := does_course (congrArg Course.fault before)
  rwa [before] at does

theorem fails_behind {env : Env} {stmts : List Stmt} {error : RuntimeError}
    (faulty : (env.course stmts).fault = some error) :
    ∃ stmt, stmts[(env.course stmts).effects.length]? = some stmt ∧
      stmt.Fails ((env.course stmts).effects.foldl after env) error := by
  obtain ⟨stmt, next, fails⟩ := course_faulty env stmts faulty
  exact ⟨stmt, next, fails_effect fails⟩

end Env

-- The sink behind an output that was written whole before the only flush.
def Sink.delivered (sink : Sink) (output : String) : Sink :=
  { sink with
    written := sink.written ++ output.toUTF8
    flushed := (sink.written ++ output.toUTF8) :: sink.flushed }

namespace Machine

inductive Passes : Machine → List Stmt → Machine → Prop where
  | nil {machine : Machine} : Passes machine [] machine
  | cons {machine next last : Machine} {stmt : Stmt} {rest : List Stmt}
      (goes : machine.execute stmt = (next, none)) (later : Passes next rest last) :
      Passes machine (stmt :: rest) last

inductive Halts (machine : Machine) (stmts : List Stmt) :
    Nat → Machine → Option RuntimeError → Prop where
  | done {left : Machine} (all : machine.Passes stmts left) : Halts machine stmts stmts.length left none
  | fault {count : Nat} {reached left : Machine} {stmt : Stmt} {error : RuntimeError}
      (before : machine.Passes (stmts.take count) reached) (next : stmts[count]? = some stmt)
      (fails : reached.execute stmt = (left, some (.fault error))) :
      Halts machine stmts count left (some error)

theorem execute_passes_iff {machine next : Machine} {stmt : Stmt} (reliable : machine.sink.Reliable) :
    machine.execute stmt = (next, none) ↔
      ∃ effect, stmt.effect machine.env = .ok effect ∧ next = machine.afterAll [effect] := by
  cases outcome : stmt.effect machine.env with
  | error error => simp [execute_fault outcome]
  | ok effect =>
    rw [execute_effect outcome, perform_fits (after_all_reliable reliable [effect]).in_limit]
    simp [eq_comm]

theorem execute_fails_iff {machine left : Machine} {stmt : Stmt} {error : RuntimeError} :
    machine.execute stmt = (left, some (.fault error)) ↔
      stmt.effect machine.env = .error error ∧ left = machine := by
  cases outcome : stmt.effect machine.env with
  | error error => simp [execute_fault outcome, eq_comm, and_comm]
  | ok effect => simp [execute_effect outcome]

theorem passes_iff_course {machine last : Machine} {stmts : List Stmt}
    (reliable : machine.sink.Reliable) :
    machine.Passes stmts last ↔ (machine.env.course stmts).fault = none ∧
      last = machine.afterAll (machine.env.course stmts).effects := by
  induction stmts generalizing machine last with
  | nil =>
    rw [Env.course, after_all_nil]
    constructor
    · intro passes
      cases passes
      exact ⟨rfl, rfl⟩
    · rintro ⟨_, rfl⟩
      exact .nil
  | cons stmt rest ih =>
    constructor
    · intro passes
      cases passes with
      | cons goes later =>
        obtain ⟨effect, does, rfl⟩ := (execute_passes_iff reliable).mp goes
        rw [Env.course_effect rest does, after_all_cons]
        exact (ih (after_all_reliable reliable [effect])).mp later
    · rintro ⟨sound, rfl⟩
      cases outcome : stmt.effect machine.env with
      | error error =>
        rw [Env.course_fault rest outcome] at sound
        cases sound
      | ok effect =>
        rw [Env.course_effect rest outcome] at sound ⊢
        rw [after_all_cons]
        refine .cons ((execute_passes_iff reliable).mpr ⟨effect, outcome, rfl⟩) ?_
        exact (ih (after_all_reliable reliable [effect])).mpr ⟨sound, rfl⟩

theorem passes_before {machine : Machine} (reliable : machine.sink.Reliable) (stmts : List Stmt) :
    machine.Passes (stmts.take (machine.env.course stmts).effects.length)
      (machine.afterAll (machine.env.course stmts).effects) := by
  rw [passes_iff_course reliable, machine.env.course_before stmts]
  exact ⟨rfl, rfl⟩

theorem halts_iff_course {machine left : Machine} {stmts : List Stmt} {count : Nat}
    {error : Option RuntimeError} (reliable : machine.sink.Reliable) :
    machine.Halts stmts count left error ↔
      count = (machine.env.course stmts).effects.length ∧
        left = machine.afterAll (machine.env.course stmts).effects ∧
        error = (machine.env.course stmts).fault := by
  constructor
  · intro halts
    cases halts with
    | done all =>
      obtain ⟨sound, rfl⟩ := (passes_iff_course reliable).mp all
      exact ⟨(Env.course_whole _ _ sound).symm, rfl, sound.symm⟩
    | @fault _ reached _ stmt error before next fails =>
      obtain ⟨sound, rfl⟩ := (passes_iff_course reliable).mp before
      obtain ⟨faulty, rfl⟩ := execute_fails_iff.mp fails
      obtain ⟨inside, rfl⟩ := List.getElem?_eq_some_iff.mp next
      have whole := Env.course_whole _ _ sound
      have stopped := Env.course_stopped (stmts.drop (count + 1)) sound faulty
      rw [← List.drop_eq_getElem_cons inside, List.take_append_drop] at stopped
      rw [stopped]
      refine ⟨?_, rfl, rfl⟩
      rw [whole, List.length_take_of_le (Nat.le_of_lt inside)]
  · rintro ⟨rfl, rfl, rfl⟩
    cases faulty : (machine.env.course stmts).fault with
    | none =>
      rw [Env.course_whole _ _ faulty]
      exact .done ((passes_iff_course reliable).mpr ⟨faulty, rfl⟩)
    | some error =>
      obtain ⟨stmt, next, fails⟩ := Env.course_faulty _ _ faulty
      exact .fault (passes_before reliable stmts) next (execute_fails_iff.mpr ⟨fails, rfl⟩)

theorem halts_course {machine : Machine} (reliable : machine.sink.Reliable) (stmts : List Stmt) :
    machine.Halts stmts (machine.env.course stmts).effects.length
      (machine.afterAll (machine.env.course stmts).effects) (machine.env.course stmts).fault :=
  (halts_iff_course reliable).mpr ⟨rfl, rfl, rfl⟩

theorem halts_unique {machine left other : Machine} {stmts : List Stmt} {count number : Nat}
    {error told : Option RuntimeError} (reliable : machine.sink.Reliable)
    (halts : machine.Halts stmts count left error) (again : machine.Halts stmts number other told) :
    count = number ∧ left = other ∧ error = told := by
  obtain ⟨rfl, rfl, rfl⟩ := (halts_iff_course reliable).mp halts
  obtain ⟨rfl, rfl, rfl⟩ := (halts_iff_course reliable).mp again
  exact ⟨rfl, rfl, rfl⟩

theorem interpret_before_failure {machine : Machine} (reliable : machine.sink.Reliable)
    (stmts : List Stmt) :
    (∃! count, ∃ left error, machine.Halts stmts count left error) ∧
    ∀ count left error, machine.Halts stmts count left error →
      count ≤ stmts.length ∧ (error = none ↔ count = stmts.length) ∧
      machine.Passes (stmts.take count) left ∧
      (∀ e, error = some e → ∃ stmt, stmts[count]? = some stmt ∧ stmt.Fails left.env e) ∧
      ∃ output, machine.env.Does (stmts.take count) output left.env ∧
        left.sink = { machine.sink with written := machine.sink.written ++ output.toUTF8 } ∧
        machine.interpret stmts = (⟨left.env, machine.sink.delivered output⟩,
          ⟨error.toList.map RuntimeError.diagnostic, .ok ()⟩) := by
  have course := halts_course reliable stmts
  refine ⟨⟨_, ⟨_, _, course⟩, ?_⟩, ?_⟩
  · rintro count ⟨left, error, halts⟩
    exact (halts_unique reliable halts course).1
  · intro count left error halts
    obtain ⟨rfl, rfl, rfl⟩ := halts_unique reliable halts course
    obtain ⟨within, whole⟩ := machine.env.course_count stmts
    refine ⟨within, whole, passes_before reliable stmts, ?_, _, machine.env.does_before stmts, rfl, ?_⟩
    · intro error faulty
      exact Env.fails_behind faulty
    · exact interpret_reliable reliable stmts

-- The first operand of an initializer has a value, and the second is at fault.
def lateFault : List Stmt :=
  [.var ⟨.identifier, "a", 1⟩ none,
   .print (.literal (.string "b")),
   .var ⟨.identifier, "a", 2⟩ (some (.binary (.literal (.string "c")) ⟨.mark .plus, "+", 2⟩
     (.unary ⟨.mark .minus, "-", 2⟩ (.literal .nil)))),
   .print (.literal .nil)]

def lateMachine : Machine := ⟨Env.empty.define "d" (.string "e"), ⟨"e\n".toUTF8, none, false, []⟩⟩

theorem interpret_before_failure_late :
    lateMachine.sink.Reliable ∧
    ∃ left : Machine,
      lateMachine.Halts lateFault 2 left (some ⟨.numberOperand, ⟨.mark .minus, "-", 2⟩⟩) ∧
      (∀ name, left.env.get? name =
        if name = "a" then some .nil else if name = "d" then some (.string "e") else none) ∧
      lateMachine.interpret lateFault =
        (⟨left.env, ⟨"e\nb\n".toUTF8, none, false, ["e\nb\n".toUTF8]⟩⟩,
          ⟨[.runtime 2 "-" "Operand must be a number."], .ok ()⟩) := by
  have reliable : lateMachine.sink.Reliable := ⟨rfl, rfl⟩
  obtain ⟨left, halts⟩ : ∃ left, lateMachine.Halts lateFault 2 left
      (some ⟨.numberOperand, ⟨.mark .minus, "-", 2⟩⟩) :=
    ⟨_, .fault (.cons rfl (.cons rfl .nil)) rfl rfl⟩
  obtain ⟨_, _, _, _, output, does, _, interprets⟩ :=
    (interpret_before_failure reliable lateFault).2 _ _ _ halts
  cases does with
  | declare binds later =>
    cases later with
    | print value later =>
      cases later
      cases value
      refine ⟨reliable, _, halts, ?_, interprets.trans ?_⟩
      · intro name
        simp only [binds name, lateMachine, Env.get_define, Env.get_empty, eq_comm]
      · have held : "e\n".toUTF8 ++ ("b" ++ "\n" ++ "").toUTF8 = "e\nb\n".toUTF8 := by decide +kernel
        simp only [lateMachine, Sink.delivered, Value.text, held]
        rfl

end Machine
end Lox
