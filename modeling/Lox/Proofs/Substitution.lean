import Lox.Proofs.FirstFailure
import Mathlib.Data.Set.Insert

set_option autoImplicit false

namespace Lox

def Expr.Mentions (e : Expr) (name : String) : Prop :=
  ∃ token, .name token ∈ e.postorder ∧ token.lexeme = name

section

variable (env : Env) (names : Set String) [DecidablePred (· ∈ names)]

def Env.without : Env := ⟨env.values.filter fun name _ => name ∉ names⟩

-- A name that is not bound is no value, and stays.
def Env.replacement (token : Token) : Expr :=
  if token.lexeme ∈ names then
    match env.get? token.lexeme with
    | some value => .literal value
    | none => .name token
  else .name token

def Expr.substitute : Expr → Expr
  | .literal value => .literal value
  | .name token => env.replacement names token
  | .group inner => .group inner.substitute
  | .unary operator operand => .unary operator operand.substitute
  | .binary left operator right => .binary left.substitute operator right.substitute

theorem get_without (name : String) :
    (env.without names).get? name = if name ∈ names then none else env.get? name := by
  rw [Env.without, Env.get?, Env.get?, Std.ExtTreeMap.getElem?_filter']
  by_cases listed : name ∈ names
  · simp [listed]
  · cases env.values[name]? <;> simp [listed]

theorem eval_replacement (token : Token) :
    (env.replacement names token).eval (env.without names) = env.lookup token := by
  have left := get_without env names token.lexeme
  rw [Env.replacement]
  by_cases listed : token.lexeme ∈ names
  · rw [if_pos listed] at left ⊢
    cases bound : env.get? token.lexeme with
    | some value => simp only [Expr.eval, Env.lookup, bound]
    | none => simp only [Expr.eval, Env.lookup, bound, left]
  · rw [if_neg listed] at left ⊢
    simp only [Expr.eval, Env.lookup, left]

theorem eval_substitute (e : Expr) :
    (e.substitute env names).eval (env.without names) = e.eval env := by
  induction e with
  | literal value => rfl
  | name token => exact eval_replacement env names token
  | group inner ih => exact ih
  | unary operator operand ih => rw [Expr.substitute, Expr.eval, Expr.eval, ih]
  | binary left operator right ihLeft ihRight =>
    rw [Expr.substitute, Expr.eval, Expr.eval, ihLeft, ihRight]

end

section

variable {env other : Env} (names : Set String) [DecidablePred (· ∈ names)]

theorem substitute_agree {e : Expr}
    (agree : ∀ name, e.Mentions name → other.get? name = env.get? name) :
    e.substitute other names = e.substitute env names := by
  induction e with
  | literal value => rfl
  | name token =>
    have same := agree token.lexeme ⟨token, .head _, rfl⟩
    rw [Expr.substitute, Expr.substitute, Env.replacement, Env.replacement, same]
  | group inner ih =>
    rw [Expr.substitute, Expr.substitute, ih]
    rintro name ⟨token, member, rfl⟩
    exact agree _ ⟨token, List.mem_append_left _ member, rfl⟩
  | unary operator operand ih =>
    rw [Expr.substitute, Expr.substitute, ih]
    rintro name ⟨token, member, rfl⟩
    exact agree _ ⟨token, List.mem_append_left _ member, rfl⟩
  | binary left operator right ihLeft ihRight =>
    rw [Expr.substitute, Expr.substitute, ihLeft, ihRight]
    · rintro name ⟨token, member, rfl⟩
      exact agree _ ⟨token, List.mem_append_right _ (List.mem_append_left _ member), rfl⟩
    · rintro name ⟨token, member, rfl⟩
      exact agree _ ⟨token, List.mem_append_left _ member, rfl⟩

theorem without_all (env other : Env) : env.without Set.univ = other.without Set.univ := by
  apply Env.same_bindings
  intro name
  rw [get_without, get_without, if_pos (Set.mem_univ name), if_pos (Set.mem_univ name)]

theorem eval_agree {e : Expr} (agree : ∀ name, e.Mentions name → other.get? name = env.get? name) :
    e.eval other = e.eval env := by
  rw [← eval_substitute other Set.univ, ← eval_substitute env Set.univ, substitute_agree _ agree,
    without_all other env]

end

theorem eval_substituted (env : Env) (names : Set String) [DecidablePred (· ∈ names)] (e : Expr) :
    (e.substitute env names).eval (env.without names) = e.eval env ∧
    ∀ other : Env, (∀ name, e.Mentions name → other.get? name = env.get? name) →
      e.eval other = e.eval env :=
  ⟨eval_substitute env names e, fun _ agree => eval_agree agree⟩

def mixed : Expr :=
  .binary (.binary (.name ⟨.identifier, "a", 1⟩) ⟨.mark .equalEqual, "==", 1⟩
    (.name ⟨.identifier, "b", 1⟩)) ⟨.mark .plus, "+", 2⟩ (.name ⟨.identifier, "c", 2⟩)

def mixedEnv : Env := (Env.empty.define "a" (.string "s")).define "b" .nil

theorem eval_substituted_mixed :
    mixed.substitute mixedEnv {name | name = "a" ∨ name = "c"} =
      .binary (.binary (.literal (.string "s")) ⟨.mark .equalEqual, "==", 1⟩
        (.name ⟨.identifier, "b", 1⟩)) ⟨.mark .plus, "+", 2⟩ (.name ⟨.identifier, "c", 2⟩) ∧
    (mixed.substitute mixedEnv {name | name = "a" ∨ name = "c"}).eval
      (mixedEnv.without {name | name = "a" ∨ name = "c"}) = mixed.eval mixedEnv ∧
    (∀ name, mixed.Mentions name → (mixedEnv.define "d" .nil).get? name = mixedEnv.get? name) ∧
    mixed.eval (mixedEnv.define "d" .nil) = mixed.eval mixedEnv := by
  have agree : ∀ name, mixed.Mentions name →
      (mixedEnv.define "d" .nil).get? name = mixedEnv.get? name := by
    rintro name ⟨token, member, rfl⟩
    have other : "d" ≠ token.lexeme := by
      simp only [mixed, Expr.postorder, List.mem_append, List.mem_singleton, Expr.name.injEq,
        reduceCtorEq, or_false] at member
      rcases member with (rfl | rfl) | rfl <;> decide
    rw [Env.get_define, if_neg other]
  obtain ⟨same, locally⟩ :=
    eval_substituted mixedEnv {name | name = "a" ∨ name = "c"} mixed
  exact ⟨rfl, same, agree, locally _ agree⟩

end Lox
