import Lox.Proofs.Steps

set_option autoImplicit false

namespace Lox

def Sink.within (sink : Sink) (limit : Option Nat) : Sink := { sink with limit := limit }

theorem extract_front {a : ByteArray} {size : Nat} (inside : size ≤ a.size) (b : ByteArray) :
    (a ++ b).extract 0 size = a.extract 0 size := by
  rw [ByteArray.extract_append, Nat.sub_eq_zero_of_le inside, Nat.zero_sub, ByteArray.extract_same,
    ByteArray.append_empty]

namespace Machine

def within (machine : Machine) (limit : Option Nat) : Machine :=
  { machine with sink := machine.sink.within limit }

theorem perform_all_append (machine : Machine) (first second : List Effect) :
    machine.performAll (first ++ second) =
      match machine.performAll first with
      | (next, none) => next.performAll second
      | (next, some error) => (next, some error) := by
  induction first generalizing machine with
  | nil => rfl
  | cons effect rest ih =>
    rw [List.cons_append, performAll, performAll]
    cases machine.perform effect with
    | mk next failed =>
      cases failed with
      | none => exact ih next
      | some error => rfl

theorem perform_all_unlimited (machine : Machine) (effects : List Effect) :
    (machine.within none).performAll effects = ((machine.afterAll effects).within none, none) := by
  apply perform_all_fits
  intro limit limited
  cases limited

theorem perform_all_within {machine : Machine} {effects : List Effect} {limit : Nat}
    (fits : (machine.afterAll effects).sink.written.size ≤ limit) :
    (machine.within (some limit)).performAll effects =
      ((machine.afterAll effects).within (some limit), none) := by
  apply perform_all_fits
  intro other limited
  cases limited
  exact fits

structure Exceeds (machine : Machine) (limit : Nat) (effects before : List Effect) (text : String) :
    Prop where
  next : ∃ later, effects = before ++ .print text :: later
  fits : (machine.afterAll before).sink.written.size ≤ limit
  exceeds : limit < ((machine.afterAll before).sink.written ++ text.toUTF8).size

theorem after_all_print (machine : Machine) (text : String) :
    (machine.afterAll [.print text]).sink.written = machine.sink.written ++ text.toUTF8 := by
  simp [afterAll, Effect.output]

theorem exceeds_some {machine : Machine} {effects : List Effect} {limit : Nat}
    (fits : machine.sink.written.size ≤ limit)
    (exceeds : limit < (machine.afterAll effects).sink.written.size) :
    ∃ before text, machine.Exceeds limit effects before text := by
  induction effects generalizing machine with
  | nil =>
    rw [after_all_nil] at exceeds
    exact absurd fits (Nat.not_le_of_lt exceeds)
  | cons effect rest ih =>
    by_cases first : (machine.afterAll [effect]).sink.written.size ≤ limit
    · rw [after_all_cons] at exceeds
      obtain ⟨before, text, ⟨later, rfl⟩, inside, outside⟩ := ih first exceeds
      refine ⟨effect :: before, text, ⟨later, rfl⟩, ?_, ?_⟩
      · rwa [after_all_cons]
      · rwa [after_all_cons]
    · cases effect with
      | nothing => exact absurd (by simpa [afterAll, Effect.output] using fits) first
      | bind name value => exact absurd (by simpa [afterAll, Effect.output] using fits) first
      | print text =>
        rw [after_all_print] at first
        refine ⟨[], text, ⟨rest, rfl⟩, ?_, ?_⟩
        · rwa [after_all_nil]
        · rw [after_all_nil]
          exact Nat.lt_of_not_le first

def cutOff (machine : Machine) (limit : Nat) (effects before : List Effect) : Machine where
  env := (machine.afterAll before).env
  sink := { machine.sink with
    written := (machine.afterAll effects).sink.written.extract 0 limit
    limit := some limit }

theorem perform_all_exceeds {machine : Machine} {limit : Nat} {effects before : List Effect}
    {text : String} (exceeds : machine.Exceeds limit effects before text) :
    (machine.within (some limit)).performAll effects =
      (machine.cutOff limit effects before, some .limitReached) := by
  obtain ⟨⟨later, rfl⟩, fits, outside⟩ := exceeds
  have written : ((machine.afterAll before).sink.written ++ text.toUTF8).extract 0 limit =
      (machine.afterAll (before ++ .print text :: later)).sink.written.extract 0 limit := by
    rw [← after_all_append, after_all_cons, ← after_all_print]
    rw [← after_all_print] at outside
    exact (extract_front (Nat.le_of_lt outside) _).symm
  rw [perform_all_append, perform_all_within fits]
  simp only [performAll, perform, within, Sink.within, Sink.write, if_neg (Nat.not_le_of_lt outside),
    written]
  rfl

theorem perform_all_full {machine : Machine} {limit : Nat} (limited : machine.sink.limit = some limit)
    (full : machine.sink.written.size = limit) (effects : List Effect) :
    (machine.performAll effects).1.sink = machine.sink := by
  induction effects generalizing machine with
  | nil => rfl
  | cons effect rest ih =>
    have same : (machine.perform effect).1.sink = machine.sink := by
      cases effect with
      | nothing => rfl
      | bind name value => rfl
      | print text =>
        rw [perform, Sink.write, limited]
        dsimp only
        split
        · rename_i fits
          have empty : text.toUTF8 = ByteArray.empty := by
            rw [← ByteArray.size_eq_zero_iff]
            rw [ByteArray.size_append] at fits
            omega
          rw [empty, ByteArray.append_empty, ← limited]
        · rw [extract_front (Nat.le_of_eq full.symm), ← full, ByteArray.extract_zero_size, full, ← limited]
    rw [performAll]
    cases performed : machine.perform effect with
    | mk next failed =>
      rw [performed] at same
      cases failed with
      | none =>
        have same : next.sink = machine.sink := same
        rw [← same] at limited full ⊢
        exact ih limited full
      | some error => exact same

theorem settle_within {machine : Machine} {effects : List Effect} {limit : Nat}
    (fits : (machine.afterAll effects).sink.written.size ≤ limit) (flushes : Bool) :
    ∃ next : Machine, next.sink.written = (machine.afterAll effects).sink.written ∧
      (machine.within none).settle flushes effects = next.within none ∧
      (machine.within (some limit)).settle flushes effects = next.within (some limit) := by
  rw [settle, settle, perform_all_unlimited, perform_all_within fits]
  cases flushes with
  | true => exact ⟨(machine.afterAll effects).flushed, rfl, rfl, rfl⟩
  | false => exact ⟨machine.afterAll effects, rfl, rfl, rfl⟩

theorem settle_unlimited (machine : Machine) (unlimited : machine.sink.limit = none) (flushes : Bool)
    (effects : List Effect) :
    (machine.settle flushes effects).sink.limit = none ∧
      (machine.settle flushes effects).sink.written = (machine.afterAll effects).sink.written := by
  have same : machine = machine.within none := by
    rw [within, Sink.within, ← unlimited]
  have performed := machine.perform_all_unlimited effects
  rw [← same] at performed
  obtain ⟨limit, written⟩ := machine.settle_sink flushes effects
  rw [limit, written, performed]
  exact ⟨rfl, rfl⟩

theorem settle_full {machine : Machine} {limit : Nat} (limited : machine.sink.limit = some limit)
    (full : machine.sink.written.size = limit) (flushes : Bool) (effects : List Effect) :
    (machine.settle flushes effects).sink.limit = some limit ∧
      (machine.settle flushes effects).sink.written = machine.sink.written := by
  obtain ⟨same, written⟩ := machine.settle_sink flushes effects
  rw [same, written, perform_all_full limited full]
  exact ⟨limited, rfl⟩

-- A session on an unlimited sink and the same session on a limited one. Once a text did not fit,
-- the environments have nothing more to do with each other.
inductive Confined (limit : Nat) : Machine → Machine → Prop where
  | roomy {machine : Machine} (fits : machine.sink.written.size ≤ limit) :
      Confined limit (machine.within none) (machine.within (some limit))
  | full {whole part : Machine} (unlimited : whole.sink.limit = none)
      (limited : part.sink.limit = some limit) (exceeds : limit < whole.sink.written.size)
      (held : part.sink.written = whole.sink.written.extract 0 limit) : Confined limit whole part

theorem settle_confined {machine : Machine} {limit : Nat} (fits : machine.sink.written.size ≤ limit)
    (flushes : Bool) (effects : List Effect) :
    Confined limit ((machine.within none).settle flushes effects)
      ((machine.within (some limit)).settle flushes effects) := by
  by_cases inside : (machine.afterAll effects).sink.written.size ≤ limit
  · obtain ⟨next, written, whole, part⟩ := settle_within inside flushes
    rw [whole, part]
    exact .roomy (written ▸ inside)
  · have outside := Nat.lt_of_not_le inside
    obtain ⟨before, text, exceeds⟩ := exceeds_some fits outside
    obtain ⟨unlimited, written⟩ := (machine.within none).settle_unlimited rfl flushes effects
    have part : (machine.within (some limit)).settle flushes effects =
        machine.cutOff limit effects before := by
      rw [settle, perform_all_exceeds exceeds]
    rw [part]
    exact .full unlimited rfl (written ▸ outside) (by rw [written]; rfl)

theorem step_confined {limit : Nat} {whole part : Machine} (confined : Confined limit whole part)
    (step : Step) : Confined limit (whole.step step).1 (part.step step).1 := by
  rw [step_settle, step_settle]
  cases confined with
  | roomy fits => exact settle_confined fits _ _
  | full unlimited limited exceeds held =>
    have size : part.sink.written.size = limit := by
      rw [held, ByteArray.size_extract]
      omega
    obtain ⟨still, grown⟩ := whole.settle_unlimited unlimited step.flushes (step.effects whole.env)
    obtain ⟨stillPart, same⟩ := settle_full limited size step.flushes (step.effects part.env)
    refine .full still stillPart ?_ ?_
    · rw [grown]
      exact Nat.lt_of_lt_of_le exceeds (after_all_size _ _)
    · rw [same, held, grown, afterAll, extract_front (Nat.le_of_lt exceeds)]

theorem leave_confined {limit : Nat} (steps : List Step) {whole part : Machine}
    (confined : Confined limit whole part) : Confined limit (whole.leave steps) (part.leave steps) := by
  induction steps generalizing whole part with
  | nil => exact confined
  | cons step rest ih =>
    rw [leave_cons, leave_cons]
    exact ih (step_confined confined step)

theorem held_confined {limit : Nat} {whole part : Machine} (confined : Confined limit whole part) :
    part.sink.written = whole.sink.written.extract 0 limit := by
  cases confined with
  | @roomy machine fits =>
    have all : machine.sink.written.extract 0 limit = machine.sink.written := by
      rw [← Nat.max_eq_left fits, ByteArray.extract_zero_max_size]
    exact all.symm
  | full _ _ _ held => exact held

theorem interpret_fits {machine : Machine} {stmts : List Stmt} {limit : Nat}
    (fits : (machine.afterAll (machine.env.course stmts).effects).sink.written.size ≤ limit) :
    (machine.within (some limit)).interpret stmts =
      (((machine.within none).interpret stmts).1.within (some limit),
        ((machine.within none).interpret stmts).2) := by
  have env (limit : Option Nat) : (machine.within limit).env = machine.env := rfl
  rw [interpret_course, interpret_course, env, env, perform_all_within fits, perform_all_unlimited]
  rfl

theorem interpret_exceeds {machine : Machine} {stmts : List Stmt} {limit : Nat} {before : List Effect}
    {text : String}
    (exceeds : machine.Exceeds limit (machine.env.course stmts).effects before text) :
    (machine.within (some limit)).interpret stmts =
      (machine.cutOff limit (machine.env.course stmts).effects before,
        ⟨[], .error .limitReached⟩) := by
  have env : (machine.within (some limit)).env = machine.env := rfl
  rw [interpret_course, env, perform_all_exceeds exceeds]

theorem interpret_unlimited (machine : Machine) (stmts : List Stmt) :
    ((machine.within none).interpret stmts).1.sink.written =
      (machine.afterAll (machine.env.course stmts).effects).sink.written := by
  rw [interpret_settle, (settle_unlimited _ rfl _ _).2]
  rfl

structure RunsOut (machine : Machine) (room : Nat) (stmts : List Stmt) (ended : Machine × Report Unit) :
    Prop where
  report : ended.2 = ⟨[], .error .limitReached⟩
  flushed : ended.1.sink.flushed = machine.sink.flushed
  held : ended.1.sink.written =
    ((machine.within none).interpret stmts).1.sink.written.extract 0 (machine.sink.written.size + room)
  before : ∃ (count : Nat) (value : Expr) (before after : Machine),
    stmts[count]? = some (.print value) ∧
      (machine.within none).executeAll (stmts.take count) = (before, none) ∧
      before.execute (.print value) = (after, none) ∧
      (before.sink.since machine.sink).size ≤ room ∧ room < (after.sink.since machine.sink).size ∧
      ended.1.env = before.env

theorem effect_print {env : Env} {stmt : Stmt} {text : String}
    (does : stmt.effect env = .ok (.print text)) : ∃ value, stmt = .print value := by
  cases has_effect does with
  | @print value => exact ⟨value, rfl⟩

theorem exceeds_print {machine : Machine} {stmts : List Stmt} {limit : Nat} {before : List Effect}
    {text : String}
    (exceeds : machine.Exceeds limit (machine.env.course stmts).effects before text) :
    ∃ value, stmts[before.length]? = some (.print value) ∧
      (Stmt.print value).effect (before.foldl Env.after machine.env) = .ok (.print text) ∧
      machine.env.course (stmts.take before.length) = ⟨before, none⟩ := by
  obtain ⟨⟨later, split⟩, _, _⟩ := exceeds
  have found : (machine.env.course stmts).effects[before.length]? = some (.print text) := by
    rw [split, List.getElem?_append_right (Nat.le_refl _), Nat.sub_self]
    rfl
  have taken : (machine.env.course stmts).effects.take before.length = before := by
    rw [split, List.take_left]
  have inside : before.length ≤ (machine.env.course stmts).effects.length := by
    rw [split, List.length_append]
    exact Nat.le_add_right _ _
  obtain ⟨stmt, next, does⟩ := Env.course_at _ _ found
  obtain ⟨value, rfl⟩ := effect_print does
  rw [taken] at does
  refine ⟨value, next, does, ?_⟩
  rw [Env.course_take _ _ inside, taken]

theorem runs_out {machine : Machine} {stmts : List Stmt} {room : Nat}
    (exceeds : room < (((machine.within none).interpret stmts).1.sink.since machine.sink).size) :
    machine.RunsOut room stmts
      ((machine.within (some (machine.sink.written.size + room))).interpret stmts) := by
  rw [Sink.since_size, interpret_unlimited] at exceeds
  have long : machine.sink.written.size + room <
      (machine.afterAll (machine.env.course stmts).effects).sink.written.size := by omega
  obtain ⟨before, text, cut⟩ := exceeds_some (Nat.le_add_right _ room) long
  obtain ⟨value, next, does, course⟩ := exceeds_print cut
  have ran : (machine.within none).executeAll (stmts.take before.length) =
      ((machine.afterAll before).within none, none) := by
    have env : (machine.within none).env = machine.env := rfl
    rw [execute_all_course, env, course, follow, perform_all_unlimited]
    rfl
  have printed : ((machine.afterAll before).within none).execute (.print value) =
      ((((machine.afterAll before).within none).perform (.print text)).1, none) := execute_effect does
  have written : (((machine.afterAll before).within none).perform (.print text)).1.sink.written =
      (machine.afterAll before).sink.written ++ text.toUTF8 := rfl
  rw [interpret_exceeds cut]
  refine ⟨rfl, rfl, ?_, before.length, value, _, _, next, ran, printed, ?_, ?_, rfl⟩
  · rw [interpret_unlimited]
    rfl
  · rw [Sink.since_size]
    exact Nat.sub_le_of_le_add (by rw [Nat.add_comm]; exact cut.fits)
  · have exceeds := cut.exceeds
    rw [Sink.since_size, written]
    omega

end Machine

theorem limited_output_front :
    (∀ (env : Env) (limit : Nat) (flushFails : Bool) (steps : List Step),
      ((Machine.mk env (.new (some limit) flushFails)).leave steps).sink.written =
        ((Machine.mk env (.new none flushFails)).leave steps).sink.written.extract 0 limit) ∧
    ∀ (machine : Machine) (room : Nat) (stmts : List Stmt),
      ((((machine.within none).interpret stmts).1.sink.since machine.sink).size ≤ room →
        (machine.within (some (machine.sink.written.size + room))).interpret stmts =
          (((machine.within none).interpret stmts).1.within (some (machine.sink.written.size + room)),
            ((machine.within none).interpret stmts).2)) ∧
      (room < (((machine.within none).interpret stmts).1.sink.since machine.sink).size →
        machine.RunsOut room stmts
          ((machine.within (some (machine.sink.written.size + room))).interpret stmts)) := by
  refine ⟨?_, ?_⟩
  · intro env limit flushFails steps
    have start : Machine.Confined limit ⟨env, .new none flushFails⟩ ⟨env, .new (some limit) flushFails⟩ :=
      @Machine.Confined.roomy limit ⟨env, .new none flushFails⟩ (Nat.zero_le limit)
    exact Machine.held_confined (Machine.leave_confined steps start)
  · intro machine room stmts
    refine ⟨?_, Machine.runs_out⟩
    intro fits
    rw [Sink.since_size, Machine.interpret_unlimited] at fits
    exact Machine.interpret_fits (by omega)

def prints : List Stmt := [.print (.literal (.string "one")), .print (.literal (.string "two"))]

theorem limited_output_front_midway :
    6 < (((((Machine.new (.new none false)).within none).interpret prints).1.sink.since
      (.new none false)).size) ∧
    (Machine.new (.new none false)).RunsOut 6 prints
      (((Machine.new (.new none false)).within (some 6)).interpret prints) ∧
    (((Machine.new (.new none false)).within (some 6)).interpret prints).1.sink.written =
      "one\ntw".toUTF8 ∧
    (((Machine.new (.new none false)).within (some 6)).interpret prints).1.sink.flushed = [] := by
  have long : 6 < (((((Machine.new (.new none false)).within none).interpret prints).1.sink.since
      (.new none false)).size) := by decide +kernel
  have out := (limited_output_front.2 (Machine.new (.new none false)) 6 prints).2 long
  exact ⟨long, out, out.held.trans (by decide +kernel), out.flushed⟩

end Lox
