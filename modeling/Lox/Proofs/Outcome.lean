import Lox.Console
import Lox.Proofs.Execution

set_option autoImplicit false

namespace Lox

def statementsOf (source : String) : List Stmt := (Program.read (scan source).tokens).statements

def staticErrors (source : String) : List Diagnostic :=
  if (scan source).errors = [] then (Program.read (scan source).tokens).errors
  else (scan source).errors

theorem scan_errors_static (source : String) :
    ∀ error ∈ (scan source).errors, error.isRuntime = false := by
  intro error member
  obtain ⟨⟨⟨content, text⟩, line⟩, _, found⟩ := List.mem_filterMap.mp member
  cases content with
  | token kind => cases found
  | skipped => cases found
  | fault cause =>
    cases found
    rfl

theorem read_errors_static (tokens : List Token) :
    ∀ error ∈ (Program.read tokens).errors, error.isRuntime = false := by
  intro error member
  rw [Program.read] at member
  cases found : tokens.find? Token.isEnd with
  | none =>
    rw [found] at member
    cases member
  | some last =>
    rw [found] at member
    obtain ⟨tried, _, told⟩ := List.mem_filterMap.mp member
    cases tried with
    | ok stmt => cases told
    | error failure =>
      cases told
      rfl

namespace Machine

theorem run_static (machine : Machine) {source : String} (told : staticErrors source ≠ []) :
    machine.run source = (machine, ⟨staticErrors source, .ok .staticError⟩) := by
  rw [staticErrors] at told ⊢
  by_cases scans : (scan source).errors = []
  · rw [if_pos scans] at told ⊢
    exact machine.run_misread scans told
  · rw [if_neg scans]
    have some : ¬ (scan source).errors.isEmpty = true := by simpa using scans
    simp only [run, if_neg some]

theorem run_silent (machine : Machine) {source : String} (silent : staticErrors source = []) :
    machine.run source = ((machine.interpret (statementsOf source)).1,
      (machine.interpret (statementsOf source)).2.conclusion) := by
  rw [staticErrors] at silent
  by_cases scans : (scan source).errors = []
  · rw [if_pos scans] at silent
    exact machine.run_read scans silent
  · rw [if_neg scans] at silent
    exact absurd silent scans

inductive Ran (machine : Machine) (source : String) : Machine × Report Outcome → Prop where
  | unscanned (told : (scan source).errors ≠ []) :
      Ran machine source (machine, ⟨(scan source).errors, .ok .staticError⟩)
  | unread (scans : (scan source).errors = [])
      (told : (Program.read (scan source).tokens).errors ≠ []) :
      Ran machine source (machine, ⟨(Program.read (scan source).tokens).errors, .ok .staticError⟩)
  | completed {output : String} {last : Env} (scans : (scan source).errors = [])
      (reads : (Program.read (scan source).tokens).errors = [])
      (does : machine.env.Does (Program.read (scan source).tokens).statements output last) :
      Ran machine source (⟨last, machine.sink.delivered output⟩, ⟨[], .ok .completed⟩)
  | faulted {count : Nat} {stmt : Stmt} {output : String} {last : Env} {error : RuntimeError}
      (scans : (scan source).errors = []) (reads : (Program.read (scan source).tokens).errors = [])
      (does : machine.env.Does ((Program.read (scan source).tokens).statements.take count) output last)
      (next : (Program.read (scan source).tokens).statements[count]? = some stmt)
      (fails : stmt.Fails last error) :
      Ran machine source
        (⟨last, machine.sink.delivered output⟩, ⟨[error.diagnostic], .ok .runtimeError⟩)

theorem ran_run {machine : Machine} (reliable : machine.sink.Reliable) (source : String) :
    Ran machine source (machine.run source) := by
  by_cases scans : (scan source).errors = []
  · by_cases reads : (Program.read (scan source).tokens).errors = []
    · rw [machine.run_read scans reads, interpret_reliable reliable]
      cases faulty : (machine.env.course (Program.read (scan source).tokens).statements).fault with
      | none => exact .completed scans reads (Env.does_course faulty)
      | some error =>
        obtain ⟨stmt, next, fails⟩ := Env.fails_behind faulty
        exact .faulted scans reads (Env.does_before _ _) next fails
    · rw [machine.run_misread scans reads]
      exact .unread scans reads
  · have told : staticErrors source = (scan source).errors := by rw [staticErrors, if_neg scans]
    rw [machine.run_static (told ▸ scans), told]
    exact .unscanned scans

end Machine

theorem Machine.Ran.ends {machine : Machine} {source : String} {ran : Machine × Report Outcome}
    (outcome : machine.Ran source ran) : ∃ outcome, ran.2.result = .ok outcome := by
  cases outcome with
  | unscanned _ => exact ⟨_, rfl⟩
  | unread _ _ => exact ⟨_, rfl⟩
  | completed => exact ⟨_, rfl⟩
  | faulted => exact ⟨_, rfl⟩

structure Report.Honest (report : Report Outcome) : Prop where
  static : report.result = .ok .staticError ↔ ∃ error ∈ report.errors, error.isRuntime = false
  runtime : report.result = .ok .runtimeError ↔ ∃ error ∈ report.errors, error.isRuntime = true
  completed : report.result = .ok .completed ↔ report.errors = []
  apart : ∀ first ∈ report.errors, ∀ second ∈ report.errors, first.isRuntime = second.isRuntime

theorem honest_static {errors : List Diagnostic} (told : errors ≠ [])
    (static : ∀ error ∈ errors, error.isRuntime = false) :
    Report.Honest ⟨errors, .ok .staticError⟩ where
  static := by
    obtain ⟨error, member⟩ := List.exists_mem_of_ne_nil errors told
    exact ⟨fun _ => ⟨error, member, static error member⟩, fun _ => rfl⟩
  runtime := by
    refine ⟨fun same => (by cases same), ?_⟩
    rintro ⟨error, member, runtime⟩
    rw [static error member] at runtime
    cases runtime
  completed := ⟨fun same => (by cases same), fun none => absurd none told⟩
  apart := fun first member second other => (static first member).trans (static second other).symm

theorem honest_ran {machine : Machine} {source : String} {ran : Machine × Report Outcome}
    (outcome : machine.Ran source ran) : ran.2.Honest := by
  cases outcome with
  | unscanned told => exact honest_static told (scan_errors_static source)
  | unread _ told => exact honest_static told (read_errors_static _)
  | completed => constructor <;> simp
  | faulted => constructor <;> simp [RuntimeError.diagnostic, Diagnostic.runtimeAt, Diagnostic.isRuntime]

theorem from_utf8_text (source : String) : String.fromUTF8? source.toUTF8 = some source := by
  have valid : source.toUTF8.IsValidUTF8 := source.isValidUTF8
  rw [String.fromUTF8?, dif_pos valid]
  rfl

theorem fresh_reliable : Console.fresh.sink.Reliable := ⟨rfl, rfl⟩

theorem run_ends_as_reported {machine : Machine} (reliable : machine.sink.Reliable) (source : String) :
    machine.Ran source (machine.run source) ∧ (machine.run source).2.Honest ∧
      ∀ path : String, ∃ outcome, (Console.fresh.run source).2.result = .ok outcome ∧
        Console.runScript path source.toUTF8 =
          ⟨(Console.fresh.run source).1.sink.written,
            String.join ((Console.fresh.run source).2.errors.map fun error => error.text ++ "\n"),
            match outcome with
            | .staticError => 65
            | .runtimeError => 70
            | .completed => 0⟩ := by
  have ran := Machine.ran_run reliable source
  refine ⟨ran, honest_ran ran, ?_⟩
  intro path
  obtain ⟨outcome, ends⟩ := (Machine.ran_run fresh_reliable source).ends
  refine ⟨outcome, ends, ?_⟩
  rw [Console.runScript, from_utf8_text]
  dsimp only
  rw [ends]
  cases outcome <;> rfl

def cutShort : String := "var a = \"b\";\nprint a; print -nil; print \"c\";"

theorem run_ends_as_reported_faulty :
    Console.fresh.sink.Reliable ∧ Console.fresh.Ran cutShort (Console.fresh.run cutShort) ∧
    ((Console.fresh.run cutShort).1.env.get? "a").map Value.text = some "b" ∧
    (Console.fresh.run cutShort).1.sink.written = "b\n".toUTF8 ∧
    (Console.fresh.run cutShort).1.sink.flushed = ["b\n".toUTF8] ∧
    (Console.fresh.run cutShort).2.errors = [.runtime 2 "-" "Operand must be a number."] ∧
    (Console.fresh.run cutShort).2.result = .ok .runtimeError ∧
    ∀ path : String, Console.runScript path cutShort.toUTF8 =
      ⟨"b\n".toUTF8, "Operand must be a number.\n[line 2]\n", 70⟩ := by
  obtain ⟨ran, honest, script⟩ := run_ends_as_reported fresh_reliable cutShort
  have written : (Console.fresh.run cutShort).1.sink.written = "b\n".toUTF8 := by decide +kernel
  have errors : (Console.fresh.run cutShort).2.errors =
      [.runtime 2 "-" "Operand must be a number."] := by decide +kernel
  have result : (Console.fresh.run cutShort).2.result = .ok .runtimeError :=
    honest.runtime.mpr ⟨_, by rw [errors]; exact .head _, rfl⟩
  refine ⟨fresh_reliable, ran, by decide +kernel, written, by decide +kernel, errors, result, ?_⟩
  intro path
  obtain ⟨outcome, ends, transcript⟩ := script path
  cases result.symm.trans ends
  rw [transcript, written, errors]
  rfl

end Lox
