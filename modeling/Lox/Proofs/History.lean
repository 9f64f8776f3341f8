import Lox.Proofs.Steps
import Mathlib.Data.Finset.Card

set_option autoImplicit false

namespace Lox

structure Definition where
  name : String
  value : Value

def Stmt.definition? (env : Env) : Stmt → Option Definition
  | .var name none => some ⟨name.lexeme, .nil⟩
  | .var name (some value) =>
    match value.eval env with
    | .ok value => some ⟨name.lexeme, value⟩
    | .error _ => none
  | _ => none

def Machine.definitions (machine : Machine) : List Stmt → List Definition
  | [] => []
  | stmt :: rest =>
    (stmt.definition? machine.env).toList ++
      match machine.execute stmt with
      | (next, none) => next.definitions rest
      | (_, some _) => []

def Step.definitions (machine : Machine) : Step → List Definition
  | .run source => if staticErrors source = [] then machine.definitions (statementsOf source) else []
  | .interpret stmts => machine.definitions stmts
  | .execute stmt => machine.definitions [stmt]
  | .define name value => [⟨name, value⟩]
  | .get _ => []

def Machine.definitionsOf (machine : Machine) : List Step → List Definition
  | [] => []
  | step :: rest => step.definitions machine ++ (machine.step step).1.definitionsOf rest

def lastValue? (history : List Definition) (name : String) : Option Value :=
  ((history.filter fun definition => definition.name == name).getLast?).map Definition.value

structure Env.Records (env : Env) (history : List Definition) : Prop where
  defined : ∀ (token : Token) (value : Value), lastValue? history token.lexeme = some value →
    env.lookup token = .ok value
  undefined : ∀ token : Token, (∀ definition ∈ history, definition.name ≠ token.lexeme) →
    ∃ error, env.lookup token = .error error ∧ error.diagnostic =
      .runtime token.line token.lexeme ("Undefined variable '" ++ token.lexeme ++ "'.")
  size : env.size = (history.map Definition.name).toFinset.card
  empty : env.isEmpty = true ↔ env.size = 0

-- A machine that a session reaches from an empty one, and the definitions made on the way. A
-- sink may do anything: between two steps it may turn into any other.
inductive Reached : List Definition → Machine → Prop where
  | start (sink : Sink) : Reached [] (.new sink)
  | step {history : List Definition} {machine : Machine} (before : Reached history machine)
      (step : Step) : Reached (history ++ step.definitions machine) (machine.step step).1
  | sink {history : List Definition} {machine : Machine} (before : Reached history machine)
      (sink : Sink) : Reached history { machine with sink := sink }

theorem last_value_append (history : List Definition) (last : Definition) (name : String) :
    lastValue? (history ++ [last]) name =
      if last.name = name then some last.value else lastValue? history name := by
  rw [lastValue?, List.filter_append]
  by_cases same : last.name = name
  · rw [if_pos same, List.filter_cons_of_pos (by simpa using same)]
    simp
  · rw [if_neg same, List.filter_cons_of_neg (by simpa using same)]
    simp [lastValue?]

theorem last_value_none {history : List Definition} {name : String} :
    lastValue? history name = none ↔ ∀ definition ∈ history, definition.name ≠ name := by
  simp [lastValue?]

namespace Env

def replay (env : Env) (history : List Definition) : Env :=
  history.foldl (fun env definition => env.define definition.name definition.value) env

theorem replay_append (env : Env) (first second : List Definition) :
    env.replay (first ++ second) = (env.replay first).replay second :=
  List.foldl_append

theorem replay_keeps {env : Env} {name : String} (bound : env.get? name ≠ none)
    (history : List Definition) : (env.replay history).get? name ≠ none := by
  induction history generalizing env with
  | nil => exact bound
  | cons first rest ih =>
    apply ih
    rw [get_define]
    split
    · simp
    · exact bound

theorem replay_size (env : Env) (history : List Definition) :
    env.size ≤ (env.replay history).size := by
  induction history generalizing env with
  | nil => exact Nat.le_refl _
  | cons first rest ih =>
    refine Nat.le_trans ?_ (ih _)
    rw [size_define]
    split
    · exact Nat.le_refl _
    · exact Nat.le_succ _

theorem get_replay (history : List Definition) (name : String) :
    (empty.replay history).get? name = lastValue? history name := by
  induction history using List.reverseRecOn with
  | nil => exact get_empty name
  | append_singleton history last ih =>
    rw [replay_append, last_value_append, ← ih]
    exact get_define _ _ _ _

theorem size_replay (history : List Definition) :
    (empty.replay history).size = (history.map Definition.name).toFinset.card := by
  induction history using List.reverseRecOn with
  | nil => rfl
  | append_singleton history last ih =>
    have bound : ((empty.replay history).get? last.name).isSome = true ↔
        last.name ∈ (history.map Definition.name).toFinset := by
      rw [get_replay, Option.isSome_iff_ne_none, Ne, last_value_none]
      simp
    have more : (history ++ [last]).map Definition.name =
        history.map Definition.name ++ [last.name] := by simp
    rw [replay_append, more, List.toFinset_append, List.toFinset_cons, List.toFinset_nil,
      Finset.union_insert, Finset.union_empty, Finset.card_insert_eq_ite, ← ih]
    simp only [← bound]
    exact size_define _ _ _

theorem records_replay (history : List Definition) : (empty.replay history).Records history where
  defined := by
    intro token value last
    rw [lookup, get_replay, last]
  undefined := by
    intro token none
    refine ⟨⟨.undefinedVariable, token⟩, ?_, rfl⟩
    rw [lookup, get_replay, last_value_none.mpr none]
  size := size_replay history
  empty := empty_iff_size _

end Env

def Effect.definition? : Effect → Option Definition
  | .bind name value => some ⟨name, value⟩
  | _ => none

theorem after_definition (env : Env) (effect : Effect) :
    env.after effect = env.replay effect.definition?.toList := by
  cases effect <;> rfl

theorem definition_of_effect (env : Env) (stmt : Stmt) :
    stmt.definition? env =
      match stmt.effect env with
      | .ok effect => effect.definition?
      | .error _ => none := by
  cases stmt with
  | expression value =>
    rw [Stmt.effect]
    cases value.eval env <;> rfl
  | print value =>
    rw [Stmt.effect]
    cases value.eval env <;> rfl
  | var name initial =>
    cases initial with
    | none => rfl
    | some value =>
      rw [Stmt.effect, Stmt.definition?]
      cases value.eval env <;> rfl

namespace Machine

theorem execute_env (machine : Machine) (stmt : Stmt) :
    (machine.execute stmt).1.env = machine.env.replay (stmt.definition? machine.env).toList := by
  rw [definition_of_effect]
  cases outcome : stmt.effect machine.env with
  | error error =>
    rw [execute_fault outcome]
    rfl
  | ok effect =>
    rw [execute_effect outcome, perform_env]
    exact after_definition machine.env effect

theorem execute_all_env (machine : Machine) (stmts : List Stmt) :
    (machine.executeAll stmts).1.env = machine.env.replay (machine.definitions stmts) := by
  induction stmts generalizing machine with
  | nil => rfl
  | cons stmt rest ih =>
    have here := machine.execute_env stmt
    rw [executeAll, definitions, Env.replay_append, ← here]
    cases machine.execute stmt with
    | mk next halt =>
      cases halt with
      | none => exact ih next
      | some halt => rfl

theorem interpret_env (machine : Machine) (stmts : List Stmt) :
    (machine.interpret stmts).1.env = machine.env.replay (machine.definitions stmts) := by
  rw [← execute_all_env, interpret]
  cases machine.executeAll stmts with
  | mk next halt =>
    cases halt with
    | none => rfl
    | some halt => cases halt <;> rfl

theorem step_env (machine : Machine) (step : Step) :
    (machine.step step).1.env = machine.env.replay (step.definitions machine) := by
  cases step with
  | run source =>
    change (machine.run source).1.env = _
    rw [Step.definitions]
    by_cases silent : staticErrors source = []
    · rw [if_pos silent, run_silent machine silent]
      exact machine.interpret_env (statementsOf source)
    · rw [if_neg silent, run_static machine silent]
      rfl
  | interpret stmts => exact machine.interpret_env stmts
  | execute stmt =>
    have alone := machine.execute_all_env [stmt]
    have same : (machine.executeAll [stmt]).1 = (machine.execute stmt).1 := by
      rw [executeAll]
      cases machine.execute stmt with
      | mk next halt => cases halt <;> rfl
    rw [same] at alone
    exact alone
  | define name value => rfl
  | get name => rfl

theorem session_env (steps : List Step) {machine : Machine} {index : Nat} {turn : Turn}
    (taken : (session machine steps)[index]? = some turn) :
    turn.machine.env = machine.env.replay (machine.definitionsOf (steps.take (index + 1))) := by
  induction steps generalizing machine index with
  | nil => cases taken
  | cons step rest ih =>
    rw [List.take_succ_cons, definitionsOf, Env.replay_append, ← step_env]
    cases index with
    | zero => cases taken; rfl
    | succ index => exact ih taken

end Machine

theorem reached_env {history : List Definition} {machine : Machine}
    (reached : Reached history machine) : machine.env = Env.empty.replay history := by
  induction reached with
  | start sink => rfl
  | step before step ih => rw [Machine.step_env, ih, Env.replay_append]
  | sink before sink ih => exact ih

theorem env_of_history {history : List Definition} {machine : Machine}
    (reached : Reached history machine) {steps : List Step} {index : Nat} {turn : Turn}
    (taken : (session machine steps)[index]? = some turn) :
    machine.env.Records history ∧
      turn.machine.env.Records (history ++ machine.definitionsOf (steps.take (index + 1))) ∧
      (∀ name, machine.env.get? name ≠ none → turn.machine.env.get? name ≠ none) ∧
      machine.env.size ≤ turn.machine.env.size := by
  have before := reached_env reached
  have after := Machine.session_env steps taken
  refine ⟨?_, ?_, ?_, ?_⟩
  · rw [before]
    exact Env.records_replay history
  · rw [after, before, ← Env.replay_append]
    exact Env.records_replay _
  · intro name bound
    rw [after]
    exact Env.replay_keeps bound _
  · rw [after]
    exact Env.replay_size _ _

def cramped : Machine := .new (.new (some 2) true)

def interrupted : List Step :=
  [.run "var a = true; print a; var b;", .define "c" .nil, .run "var a = !a; var c = -a; var b;",
    .run "var b = nil; var b = ;", .get ⟨.identifier, "b", 1⟩]

theorem env_of_history_interrupted :
    Reached [] cramped ∧
    (cramped.definitionsOf interrupted).map Definition.name = ["a", "c", "a"] ∧
    ∃ turn, (session cramped interrupted)[4]? = some turn ∧ cramped.env.Records [] ∧
      turn.machine.env.Records ([] ++ cramped.definitionsOf (interrupted.take 5)) ∧
      (∀ name, cramped.env.get? name ≠ none → turn.machine.env.get? name ≠ none) ∧
      cramped.env.size ≤ turn.machine.env.size := by
  have reached : Reached [] cramped := .start _
  have defined : (cramped.definitionsOf interrupted).map Definition.name = ["a", "c", "a"] := by
    decide +kernel
  obtain ⟨turn, taken⟩ : ∃ turn, (session cramped interrupted)[4]? = some turn := ⟨_, rfl⟩
  exact ⟨reached, defined, turn, taken, env_of_history reached taken⟩

end Lox
