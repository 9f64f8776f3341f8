import Lox.Proofs.Execution
import Lox.Proofs.Substitution

set_option autoImplicit false

namespace Lox

namespace Stmt

def name? : Stmt → Option String
  | .var name _ => some name.lexeme
  | _ => none

def Mentions (stmt : Stmt) (name : String) : Prop :=
  ∃ e, stmt.expr? = some e ∧ e.Mentions name

structure Spares (stmt other : Stmt) : Prop where
  bound : ∀ name, stmt.name? = some name → other.name? ≠ some name
  read : ∀ name, stmt.name? = some name → ¬ other.Mentions name

end Stmt

theorem effect_name {env : Env} {stmt : Stmt} {effect : Effect} (does : stmt.effect env = .ok effect) :
    effect.name? = stmt.name? := by
  cases has_effect does <;> rfl

theorem effect_silent {env : Env} {stmt : Stmt} {effect : Effect} (silent : ¬ stmt.isPrint)
    (does : stmt.effect env = .ok effect) : effect.output = "" := by
  cases has_effect does with
  | print => exact absurd rfl silent
  | _ => rfl

theorem effect_agree {env other : Env} {stmt : Stmt}
    (agree : ∀ name, stmt.Mentions name → other.get? name = env.get? name) :
    stmt.effect other = stmt.effect env := by
  have same {e : Expr} (whole : stmt.expr? = some e) : e.eval other = e.eval env :=
    eval_agree fun name mentioned => agree name ⟨e, whole, mentioned⟩
  cases stmt with
  | expression e => rw [Stmt.effect, Stmt.effect, same rfl]
  | print e => rw [Stmt.effect, Stmt.effect, same rfl]
  | var name initial =>
    cases initial with
    | none => rfl
    | some e => rw [Stmt.effect, Stmt.effect, same rfl]

theorem effect_spared {env : Env} {stmt other : Stmt} {effect : Effect} (spares : stmt.Spares other)
    (does : stmt.effect env = .ok effect) : other.effect (env.after effect) = other.effect env := by
  apply effect_agree
  intro name mentioned
  apply Env.get_after
  rw [effect_name does]
  exact fun bound => spares.read name bound mentioned

theorem after_comm (env : Env) {x y : Effect} (apart : ∀ name, x.name? = some name → y.name? ≠ some name) :
    (env.after x).after y = (env.after y).after x := by
  cases x with
  | bind first value =>
    cases y with
    | bind second other =>
      have different : second ≠ first := fun same => apart first rfl (congrArg some same)
      apply Env.same_bindings
      intro name
      simp only [Env.after, Env.get_define]
      by_cases here : second = name
      · have elsewhere : first ≠ name := fun same => different (here.trans same.symm)
        rw [if_pos here, if_neg elsewhere, if_pos here]
      · rw [if_neg here, if_neg here]
    | _ => rfl
  | _ => rfl

namespace Machine

theorem passes_two_iff {machine last : Machine} {first second : Stmt} (reliable : machine.sink.Reliable) :
    machine.Passes [first, second] last ↔
      ∃ x y, first.effect machine.env = .ok x ∧ second.effect (machine.env.after x) = .ok y ∧
        last = machine.afterAll [x, y] := by
  constructor
  · intro passes
    cases passes with
    | cons goes later =>
      obtain ⟨x, does, rfl⟩ := (execute_passes_iff reliable).mp goes
      cases later with
      | cons goes later =>
        obtain ⟨y, next, rfl⟩ := (execute_passes_iff (after_all_reliable reliable [x])).mp goes
        cases later
        exact ⟨x, y, does, next, machine.after_all_append [x] [y]⟩
  · rintro ⟨x, y, does, next, rfl⟩
    refine .cons ((execute_passes_iff reliable).mpr ⟨x, does, rfl⟩) (.cons ?_ .nil)
    refine (execute_passes_iff (after_all_reliable reliable [x])).mpr ⟨y, next, ?_⟩
    exact (machine.after_all_append [x] [y]).symm

-- With one of the two silent, what they write together does not tell their order.
theorem after_all_comm (machine : Machine) {x y : Effect}
    (apart : ∀ name, x.name? = some name → y.name? ≠ some name) (silent : x.output = "" ∨ y.output = "") :
    machine.afterAll [x, y] = machine.afterAll [y, x] := by
  have output : String.join [x.output, y.output] = String.join [y.output, x.output] := by
    rcases silent with none | none
    · rw [none]
      simp
    · rw [none]
      simp
  have env := after_comm machine.env apart
  simp only [afterAll, List.foldl_cons, List.foldl_nil, List.map_cons, List.map_nil, output, env]

theorem passes_comm {machine last : Machine} {s t : Stmt} (reliable : machine.sink.Reliable)
    (prints : ¬ (s.isPrint ∧ t.isPrint)) (one : s.Spares t) (other : t.Spares s)
    (passes : machine.Passes [s, t] last) : machine.Passes [t, s] last := by
  obtain ⟨x, y, first, second, rfl⟩ := (passes_two_iff reliable).mp passes
  rw [effect_spared one first] at second
  have apart : ∀ name, x.name? = some name → y.name? ≠ some name := by
    rw [effect_name first, effect_name second]
    exact one.bound
  have silent : x.output = "" ∨ y.output = "" := by
    by_cases print : s.isPrint
    · exact .inr (effect_silent (fun also => prints ⟨print, also⟩) second)
    · exact .inl (effect_silent print first)
  refine (passes_two_iff reliable).mpr ⟨y, x, second, ?_, machine.after_all_comm apart silent⟩
  rw [effect_spared other second, first]

end Machine

theorem independent_commute {machine : Machine} (reliable : machine.sink.Reliable) {s t : Stmt}
    (prints : ¬ (s.isPrint ∧ t.isPrint)) (one : s.Spares t) (other : t.Spares s) :
    ((∃ last, machine.Passes [s, t] last) ↔ ∃ last, machine.Passes [t, s] last) ∧
    ∀ a b, machine.Passes [s, t] a → machine.Passes [t, s] b →
      (∀ name, a.env.get? name = b.env.get? name) ∧ a.env.size = b.env.size ∧ a.sink = b.sink := by
  have swapped : ¬ (t.isPrint ∧ s.isPrint) := fun both => prints both.symm
  refine ⟨⟨?_, ?_⟩, ?_⟩
  · rintro ⟨last, passes⟩
    exact ⟨last, Machine.passes_comm reliable prints one other passes⟩
  · rintro ⟨last, passes⟩
    exact ⟨last, Machine.passes_comm reliable swapped other one passes⟩
  · intro a b first second
    have again := Machine.passes_comm reliable prints one other first
    obtain ⟨_, rfl⟩ := (Machine.passes_iff_course reliable).mp again
    obtain ⟨_, rfl⟩ := (Machine.passes_iff_course reliable).mp second
    exact ⟨fun _ => rfl, rfl, rfl⟩

def appending : Stmt :=
  .var ⟨.identifier, "a", 1⟩ (some (.binary (.name ⟨.identifier, "a", 1⟩) ⟨.mark .plus, "+", 1⟩
    (.name ⟨.identifier, "b", 1⟩)))

def announcing : Stmt :=
  .print (.binary (.name ⟨.identifier, "b", 2⟩) ⟨.mark .plus, "+", 2⟩ (.name ⟨.identifier, "c", 2⟩))

def lettered : Machine :=
  ⟨((Env.empty.define "a" (.string "x")).define "b" (.string "y")).define "c" (.string "z"), .new none false⟩

theorem independent_commute_shared :
    (lettered.sink.Reliable ∧ ¬ (appending.isPrint ∧ announcing.isPrint) ∧
      appending.Spares announcing ∧ announcing.Spares appending) ∧
    ∃ a b, lettered.Passes [appending, announcing] a ∧ lettered.Passes [announcing, appending] b ∧
      (∀ name, a.env.get? name = b.env.get? name) ∧ a.env.size = b.env.size ∧ a.sink = b.sink := by
  have reliable : lettered.sink.Reliable := ⟨rfl, rfl⟩
  have prints : ¬ (appending.isPrint ∧ announcing.isPrint) := by decide
  have one : appending.Spares announcing := by
    constructor
    · intro name _ bound
      cases bound
    · rintro name bound ⟨e, whole, token, member, rfl⟩
      cases whole
      simp only [Expr.postorder, List.mem_append, List.mem_singleton, Expr.name.injEq, reduceCtorEq,
        or_false] at member
      rcases member with rfl | rfl <;> exact absurd (Option.some.inj bound) (by decide)
  have other : announcing.Spares appending := by
    constructor
    · intro name bound
      cases bound
    · intro name bound
      cases bound
  obtain ⟨either, same⟩ := independent_commute reliable prints one other
  have first : lettered.Passes [appending, announcing] _ := .cons rfl (.cons rfl .nil)
  obtain ⟨last, second⟩ := either.mp ⟨_, first⟩
  exact ⟨⟨reliable, prints, one, other⟩, _, _, first, second, same _ _ first second⟩

end Lox
