import Lox.Proofs.Layout
import Lox.Proofs.Newline
import Lox.Proofs.Yield

set_option autoImplicit false

namespace Lox

structure Clean (source : String) : Prop where
  scans : (scan source).errors = []
  reads : (Program.read (scan source).tokens).errors = []

def Report.faulted (report : Report Outcome) : Bool :=
  match report.result with
  | .ok .runtimeError => true
  | _ => false

def Machine.runEach (machine : Machine) : List String → Machine × List (Report Outcome)
  | [] => (machine, [])
  | source :: rest =>
    let ran := machine.run source
    if ran.2.faulted then (ran.1, [ran.2])
    else
      let later := ran.1.runEach rest
      (later.1, ran.2 :: later.2)

def textAbove (sources : List String) (index : Nat) : String :=
  String.join ((sources.take index).map (· ++ "\n"))

def joinedErrors (sources : List String) (reports : List (Report Outcome)) : List Diagnostic :=
  reports.zipIdx.flatMap fun pair =>
    pair.1.errors.map (Diagnostic.down ((textAbove sources pair.2).toList.count '\n'))

namespace Program

theorem attempts_append {stmts : List Stmt} : ∀ {first : List Token},
    attempts first = stmts.map .ok → ∀ second : List Token,
      attempts (first ++ second) = attempts first ++ attempts second := by
  induction stmts with
  | nil =>
    intro first none second
    by_cases empty : first = []
    · rw [empty, attempts_nil]
      rfl
    · rw [attempts_some empty] at none
      cases none
  | cons stmt rest ih =>
    intro first run second
    obtain ⟨used, later, rfl, declared, run⟩ := attempts_cons run
    rw [List.append_assoc, attempts_ok (Stmt.read_declared declared _),
      attempts_ok (Stmt.read_declared declared _), ih run, List.cons_append]

theorem read_append {first second : List Token} {stmts : List Stmt}
    (sound : attempts first = stmts.map .ok) (inside : ∀ token ∈ first, token.kind ≠ .eof)
    (ended : ∃ token ∈ second, token.isEnd = true) :
    read (first ++ second) = ⟨stmts ++ (read second).statements, (read second).errors⟩ := by
  obtain ⟨last, after, _, _, found⟩ := body_ended ended
  have whole : (first ++ second).find? Token.isEnd = some last := by rw [find_end_past inside, found]
  obtain ⟨accepted, none⟩ := (all_accepted_iff last).mpr sound
  rw [read_ended whole, read_ended found, body_past inside, attempts_append sound,
    List.filterMap_append, List.filterMap_append, accepted, none]
  rfl

theorem attempts_sound {tokens : List Token} (ended : ∃ token ∈ tokens, token.isEnd = true)
    (reads : (read tokens).errors = []) :
    attempts (body tokens) = (read tokens).statements.map .ok := by
  obtain ⟨last, after, _, _, found⟩ := body_ended ended
  rw [read_ended found] at reads ⊢
  exact (all_accepted_iff last).mp ⟨rfl, reads⟩

end Program

theorem scan_ended (source : String) : ∃ token ∈ (scan source).tokens, token.isEnd = true :=
  ⟨.atEnd (sourceLines source), by rw [scan_tokens]; simp, rfl⟩

def Token.Lower (lines : Nat) (s t : Token) : Prop := t = s.down lines

theorem lower_kind {lines : Nat} (s t : Token) (lower : Token.Lower lines s t) : s.kind = t.kind := by
  rw [lower]
  rfl

theorem lower_lexeme {lines : Nat} (s t : Token) (lower : Token.Lower lines s t) :
    s.lexeme = t.lexeme := by
  rw [lower]
  rfl

theorem map_lower (lines : Nat) (tokens : List Token) :
    List.Forall₂ (Token.Lower lines) tokens (tokens.map (Token.down lines)) := by
  rw [List.forall₂_map_right_iff, List.forall₂_same]
  intro token _
  rfl

theorem diagnostics_lower {lines : Nat} {xs ys : List Diagnostic}
    (alike : List.Forall₂ (Diagnostic.Alike (Token.Lower lines)) xs ys) :
    ys = xs.map (Diagnostic.down lines) := by
  induction alike with
  | nil => rfl
  | cons first _ ih =>
    rw [List.map_cons, ih]
    cases first with
    | parse place message =>
      rw [place]
      rfl
    | runtime place message =>
      rw [place]
      rfl

theorem program_newline {before after : String} (cleanBefore : Clean before) (cleanAfter : Clean after) :
    (scan (before ++ "\n" ++ after)).errors = [] ∧
    ∃ others, Program.read (scan (before ++ "\n" ++ after)).tokens =
        ⟨(Program.read (scan before).tokens).statements ++ others, []⟩ ∧
      List.Forall₂ (Stmt.Alike (.ofTokens (Token.Lower (sourceLines before))))
        (Program.read (scan after).tokens).statements others := by
  obtain ⟨tokens, errors⟩ := scan_newline after (closed_of_clean cleanBefore.scans)
  have inside := text_tokens_no_end before.toList
  have sound := Program.attempts_sound (scan_ended before) cleanBefore.reads
  have lower := map_lower (sourceLines before) (scan after).tokens
  obtain ⟨stmts, faults⟩ := Program.read_kinds_alike lower_kind lower
  have ended : ∃ token ∈ (scan after).tokens.map (Token.down (sourceLines before)),
      token.isEnd = true := by
    obtain ⟨token, member, ends⟩ := scan_ended after
    exact ⟨_, List.mem_map_of_mem member, ends⟩
  have none : (Program.read ((scan after).tokens.map (Token.down (sourceLines before)))).errors = [] := by
    rw [diagnostics_lower faults, cleanAfter.reads]
    rfl
  have whole : Program.body (scan before).tokens = textTokens before.toList := by
    rw [scan_tokens]
    exact Program.body_append inside rfl
  rw [whole] at sound
  refine ⟨?_, _, ?_, stmts⟩
  · rw [errors, cleanBefore.scans, cleanAfter.scans]
    rfl
  · rw [tokens, Program.read_append sound inside ended, none]

theorem clean_newline {before after : String} (cleanBefore : Clean before) (cleanAfter : Clean after) :
    Clean (before ++ "\n" ++ after) := by
  obtain ⟨scans, others, reads, _⟩ := program_newline cleanBefore cleanAfter
  exact ⟨scans, by rw [reads]⟩

theorem clean_joined {sources : List String} (some : sources ≠ [])
    (clean : ∀ source ∈ sources, Clean source) : Clean (String.intercalate "\n" sources) := by
  induction sources with
  | nil => exact absurd rfl some
  | cons first rest ih =>
    obtain ⟨here, later⟩ := List.forall_mem_cons.mp clean
    cases rest with
    | nil => exact here
    | cons second rest =>
      rw [String.intercalate_cons_cons]
      exact clean_newline here (ih (by simp) later)

def Course.report (course : Course) : Report Outcome :=
  Report.conclusion ⟨course.fault.toList.map RuntimeError.diagnostic, .ok ()⟩

theorem report_faulted (course : Course) : course.report.faulted = course.fault.isSome := by
  obtain ⟨effects, fault⟩ := course
  cases fault <;> rfl

theorem report_lower {lines : Nat} {a b : Course}
    (faults : List.Forall₂ (Diagnostic.Alike (Token.Lower lines))
      (a.fault.toList.map RuntimeError.diagnostic) (b.fault.toList.map RuntimeError.diagnostic)) :
    b.report.result = a.report.result ∧
      b.report.errors = a.report.errors.map (Diagnostic.down lines) := by
  refine ⟨?_, diagnostics_lower faults⟩
  rw [Course.report, Course.report, Report.conclusion, Report.conclusion, is_empty_alike faults]

theorem run_clean {machine : Machine} (reliable : machine.sink.Reliable) {source : String}
    (clean : Clean source) :
    machine.run source =
      ((machine.afterAll
          (machine.env.course (Program.read (scan source).tokens).statements).effects).flushed,
        (machine.env.course (Program.read (scan source).tokens).statements).report) := by
  rw [machine.run_read clean.scans clean.reads, Machine.interpret_reliable reliable]
  rfl

theorem run_reliable {machine : Machine} (reliable : machine.sink.Reliable) {source : String}
    (clean : Clean source) : (machine.run source).1.sink.Reliable := by
  rw [run_clean reliable clean]
  exact ⟨reliable.unlimited, reliable.flushes⟩

theorem run_sound {machine : Machine} (reliable : machine.sink.Reliable) {source : String}
    (clean : Clean source) (sound : ¬ (machine.run source).2.faulted = true) :
    (machine.run source).2.errors = [] := by
  rw [run_clean reliable clean, report_faulted, Bool.not_eq_true, Option.isSome_eq_false_iff,
    Option.isNone_iff_eq_none] at sound
  rw [run_clean reliable clean, Course.report, sound]
  rfl

-- The same ending, but for flushes and for lines that are so many further down.
structure EndsAs (lines : Nat) (whole part : Machine × Report Outcome) : Prop where
  env : whole.1.env = part.1.env
  written : whole.1.sink.written = part.1.sink.written
  result : whole.2.result = part.2.result
  errors : whole.2.errors = part.2.errors.map (Diagnostic.down lines)

theorem run_newline_faulted {machine : Machine} (reliable : machine.sink.Reliable)
    {before after : String} (cleanBefore : Clean before) (cleanAfter : Clean after)
    (faulted : (machine.run before).2.faulted = true) :
    machine.run (before ++ "\n" ++ after) = machine.run before := by
  obtain ⟨_, others, reads, _⟩ := program_newline cleanBefore cleanAfter
  rw [run_clean reliable cleanBefore, report_faulted] at faulted
  rw [run_clean reliable (clean_newline cleanBefore cleanAfter), run_clean reliable cleanBefore,
    reads, Env.course_append, if_pos faulted]

theorem run_newline {machine : Machine} (reliable : machine.sink.Reliable)
    {before after : String} (cleanBefore : Clean before) (cleanAfter : Clean after)
    (sound : ¬ (machine.run before).2.faulted = true) :
    EndsAs (sourceLines before) (machine.run (before ++ "\n" ++ after))
      ((machine.run before).1.run after) := by
  obtain ⟨_, others, reads, alike⟩ := program_newline cleanBefore cleanAfter
  have next := run_reliable reliable cleanBefore
  rw [run_clean next cleanAfter, run_clean reliable (clean_newline cleanBefore cleanAfter), reads,
    Env.course_append]
  rw [run_clean reliable cleanBefore, report_faulted] at sound
  rw [run_clean reliable cleanBefore, if_neg sound]
  generalize machine.env.course (Program.read (scan before).tokens).statements = course
  obtain ⟨effects, faults⟩ := course_of_tokens lower_kind lower_lexeme
    (course.effects.foldl Env.after machine.env) alike
  obtain ⟨result, errors⟩ := report_lower faults
  refine ⟨?_, ?_, result, errors⟩
  · simp [Machine.afterAll, Machine.flushed, effects]
  · simp [Machine.afterAll, Machine.flushed, effects, Sink.flush, ByteArray.append_assoc]

theorem down_down (first second : Nat) (diagnostic : Diagnostic) :
    (diagnostic.down first).down second = diagnostic.down (first + second) := by
  cases diagnostic <;> simp [Diagnostic.down, Nat.add_assoc]

theorem text_above_succ (first : String) (rest : List String) (index : Nat) :
    (textAbove (first :: rest) (index + 1)).toList.count '\n' =
      (textAbove rest index).toList.count '\n' + sourceLines first := by
  rw [textAbove, List.take_succ_cons, List.map_cons, String.join_cons, ← textAbove]
  simp [sourceLines, List.count_append]
  omega

theorem joined_errors_cons (first : String) (rest : List String) (report : Report Outcome)
    (later : List (Report Outcome)) :
    joinedErrors (first :: rest) (report :: later) =
      report.errors ++ (joinedErrors rest later).map (Diagnostic.down (sourceLines first)) := by
  have here : Diagnostic.down 0 = id := by
    funext diagnostic
    cases diagnostic <;> rfl
  have top : (textAbove (first :: rest) 0).toList.count '\n' = 0 := rfl
  rw [joinedErrors, List.zipIdx_cons, List.flatMap_cons, top, here, List.map_id, joinedErrors,
    List.map_flatMap, List.zipIdx_succ, List.flatMap_map]
  congr 2
  funext pair
  rw [List.map_map, text_above_succ]
  congr 1
  funext diagnostic
  exact (down_down _ _ diagnostic).symm

theorem run_each_cons (machine : Machine) (first : String) (rest : List String) :
    machine.runEach (first :: rest) =
      if (machine.run first).2.faulted then ((machine.run first).1, [(machine.run first).2])
      else (((machine.run first).1.runEach rest).1,
        (machine.run first).2 :: ((machine.run first).1.runEach rest).2) := by
  rw [Machine.runEach]

theorem run_joined {machine : Machine} (reliable : machine.sink.Reliable) {sources : List String}
    (nonempty : sources ≠ []) (clean : ∀ source ∈ sources, Clean source) :
    (machine.run (String.intercalate "\n" sources)).1.env = (machine.runEach sources).1.env ∧
      (machine.run (String.intercalate "\n" sources)).1.sink.written =
        (machine.runEach sources).1.sink.written ∧
      (∃ last, (machine.runEach sources).2.getLast? = some last ∧
        (machine.run (String.intercalate "\n" sources)).2.result = last.result) ∧
      (machine.run (String.intercalate "\n" sources)).2.errors =
        joinedErrors sources (machine.runEach sources).2 := by
  induction sources generalizing machine with
  | nil => exact absurd rfl nonempty
  | cons first rest ih =>
    obtain ⟨here, later⟩ := List.forall_mem_cons.mp clean
    have alone : joinedErrors (first :: rest) [(machine.run first).2] = (machine.run first).2.errors := by
      rw [joined_errors_cons]
      exact List.append_nil _
    rw [run_each_cons]
    cases rest with
    | nil =>
      have none : (machine.run first).1.runEach [] = ((machine.run first).1, []) := rfl
      rw [none, ite_self, alone]
      exact ⟨rfl, rfl, ⟨_, rfl, rfl⟩, rfl⟩
    | cons second rest =>
      have below := clean_joined (by simp) later
      rw [String.intercalate_cons_cons]
      by_cases faulted : (machine.run first).2.faulted = true
      · rw [if_pos faulted, run_newline_faulted reliable here below faulted, alone]
        exact ⟨rfl, rfl, ⟨_, rfl, rfl⟩, rfl⟩
      · have ends := run_newline reliable here below faulted
        have next := run_reliable reliable here
        obtain ⟨env, written, ⟨last, found, result⟩, errors⟩ := ih next (by simp) later
        rw [if_neg faulted, joined_errors_cons, run_sound reliable here faulted, List.nil_append,
          ← errors]
        refine ⟨ends.env.trans env, ends.written.trans written, ⟨last, ?_, ends.result.trans result⟩,
          ends.errors⟩
        rw [List.getLast?_cons, found]
        rfl

def pieces : List String := ["var a; // nil", "print a;\nprint -a;", "print b;"]

theorem run_joined_pieces :
    ((Sink.new none false).Reliable ∧ pieces ≠ [] ∧ ∀ source ∈ pieces, Clean source) ∧
    ((Machine.new (.new none false)).run (String.intercalate "\n" pieces)).1.env =
      ((Machine.new (.new none false)).runEach pieces).1.env ∧
    ((Machine.new (.new none false)).run (String.intercalate "\n" pieces)).1.sink.written =
      ((Machine.new (.new none false)).runEach pieces).1.sink.written ∧
    (∃ last, ((Machine.new (.new none false)).runEach pieces).2.getLast? = some last ∧
      ((Machine.new (.new none false)).run (String.intercalate "\n" pieces)).2.result = last.result) ∧
    ((Machine.new (.new none false)).run (String.intercalate "\n" pieces)).2.errors =
      joinedErrors pieces ((Machine.new (.new none false)).runEach pieces).2 ∧
    ((Machine.new (.new none false)).runEach pieces).1.sink.written = "nil\n".toUTF8 ∧
    joinedErrors pieces ((Machine.new (.new none false)).runEach pieces).2 =
      [.runtime 3 "-" "Operand must be a number."] := by
  have reliable : (Sink.new none false).Reliable := ⟨rfl, rfl⟩
  have nonempty : pieces ≠ [] := by simp [pieces]
  have clean : ∀ source ∈ pieces, Clean source := by
    simp only [pieces, List.forall_mem_cons, List.not_mem_nil, false_implies, implies_true, and_true]
    exact ⟨⟨by decide +kernel, by decide +kernel⟩, ⟨by decide +kernel, by decide +kernel⟩, ⟨by decide +kernel, by decide +kernel⟩⟩
  have machine : (Machine.new (.new none false)).sink.Reliable := reliable
  obtain ⟨env, written, result, errors⟩ := run_joined machine nonempty clean
  exact ⟨⟨reliable, nonempty, clean⟩, env, written, result, errors, by decide +kernel, by decide +kernel⟩

end Lox
