import Lox.Proofs.FirstFailure
import Mathlib.Logic.Equiv.Basic

set_option autoImplicit false

namespace Lox

section

variable (rho : String → String)

def Token.rename (token : Token) : Token := { token with lexeme := rho token.lexeme }

def Expr.rename : Expr → Expr
  | .literal value => .literal value
  | .name token => .name (token.rename rho)
  | .group inner => .group inner.rename
  | .unary operator operand => .unary operator operand.rename
  | .binary left operator right => .binary left.rename operator right.rename

def Stmt.rename : Stmt → Stmt
  | .expression value => .expression (value.rename rho)
  | .print value => .print (value.rename rho)
  | .var name initial => .var (name.rename rho) (initial.map (Expr.rename rho))

def Env.rename (env : Env) : Env :=
  ⟨.ofList (env.values.toList.map fun binding => (rho binding.1, binding.2))⟩

def Machine.rename (machine : Machine) : Machine := { machine with env := machine.env.rename rho }

-- Of all errors, only that of a name that is not bound has a name in it.
def RuntimeError.rename (error : RuntimeError) : RuntimeError :=
  match error.fault with
  | .undefinedVariable => { error with token := error.token.rename rho }
  | _ => error

def Effect.rename : Effect → Effect
  | .bind name value => .bind (rho name) value
  | effect => effect

def Course.rename (course : Course) : Course :=
  ⟨course.effects.map (Effect.rename rho), course.fault.map (RuntimeError.rename rho)⟩

inductive Diagnostic.Renamed : Diagnostic → Diagnostic → Prop where
  | undefined (line : Nat) (name : String) :
      Renamed (.runtime line name ("Undefined variable '" ++ name ++ "'."))
        (.runtime line (rho name) ("Undefined variable '" ++ rho name ++ "'."))
  | other {diagnostic : Diagnostic}
      (bound : ∀ name, diagnostic.message ≠ "Undefined variable '" ++ name ++ "'.") :
      Renamed diagnostic diagnostic

theorem fault_renamed (error : RuntimeError) :
    Diagnostic.Renamed rho error.diagnostic (error.rename rho).diagnostic := by
  -- No other message starts with the letter that this one starts with.
  have apart {text : String} (starts : text.toList.head? = some 'O') (name : String) :
      text ≠ "Undefined variable '" ++ name ++ "'." := by
    rintro rfl
    simp at starts
  obtain ⟨fault, token⟩ := error
  cases fault with
  | undefinedVariable => exact .undefined token.line token.lexeme
  | numberOperand => exact .other (@apart "Operand must be a number." (by decide))
  | numberOperands => exact .other (@apart "Operands must be numbers." (by decide))
  | additionOperands =>
    exact .other (@apart "Operands must be two numbers or two strings." (by decide))

theorem blame_rename (operator : Token) {result : Except RuntimeFault Value}
    (known : result ≠ .error .undefinedVariable) :
    (operator.blame result).mapError (RuntimeError.rename rho) = operator.blame result := by
  cases result with
  | ok value => rfl
  | error fault =>
    cases fault with
    | undefinedVariable => exact absurd rfl known
    | _ => rfl

theorem apply_unary_known (kind : TokenKind) (x : Value) :
    kind.applyUnary x ≠ .error .undefinedVariable := by
  intro fault
  cases (TokenKind.apply_unary_fault.mp fault).2.2

theorem apply_binary_known (kind : TokenKind) (x y : Value) :
    kind.applyBinary x y ≠ .error .undefinedVariable := by
  intro fault
  rcases TokenKind.apply_binary_fault.mp fault with ⟨_, added⟩ | ⟨_, joined⟩
  · cases (TokenKind.add_fault.mp added).2
  · cases (TokenKind.join_numbers_fault.mp joined).2

end

section

variable {rho : String → String} (injective : Function.Injective rho)
include injective

namespace Env

theorem get_rename_iff (env : Env) {name : String} {value : Value} :
    (env.rename rho).get? name = some value ↔ ∃ key, rho key = name ∧ env.get? key = some value := by
  have apart : (env.values.toList.map fun binding => (rho binding.1, binding.2)).Pairwise
      fun a b => ¬ compare a.1 b.1 = .eq := by
    rw [List.pairwise_map]
    refine env.values.distinct_keys_toList.imp ?_
    intro a b different same
    have keys := injective (Std.LawfulEqCmp.eq_of_compare same)
    exact different (keys ▸ Std.ReflCmp.compare_self)
  have moved {key : String} {found : Value} (bound : env.get? key = some found) :
      (env.rename rho).get? (rho key) = some found :=
    Std.ExtTreeMap.getElem?_ofList_of_mem Std.ReflCmp.compare_self apart
      (List.mem_map.mpr ⟨(key, found), Std.ExtTreeMap.mem_toList_iff_getElem?_eq_some.mpr bound, rfl⟩)
  constructor
  · intro bound
    have listed : name ∈ (env.rename rho).values :=
      Std.ExtTreeMap.mem_iff_isSome_getElem?.mpr (Option.isSome_of_eq_some bound)
    rw [Env.rename, Std.ExtTreeMap.mem_ofList] at listed
    obtain ⟨key, found, member, rfl⟩ : ∃ key found, (key, found) ∈ env.values.toList ∧ rho key = name := by
      simpa using listed
    have held : env.get? key = some found := Std.ExtTreeMap.mem_toList_iff_getElem?_eq_some.mp member
    rw [moved held] at bound
    exact ⟨key, rfl, held.trans bound⟩
  · rintro ⟨key, rfl, bound⟩
    exact moved bound

theorem get_rename (env : Env) (name : String) : (env.rename rho).get? (rho name) = env.get? name := by
  apply Option.ext
  intro value
  rw [get_rename_iff injective]
  constructor
  · rintro ⟨key, same, bound⟩
    exact injective same ▸ bound
  · intro bound
    exact ⟨name, rfl, bound⟩

theorem rename_define (env : Env) (name : String) (value : Value) :
    (env.define name value).rename rho = (env.rename rho).define (rho name) value := by
  apply same_bindings
  intro query
  apply Option.ext
  intro found
  rw [get_rename_iff injective, get_define]
  by_cases same : rho name = query
  · subst same
    rw [if_pos rfl]
    constructor
    · rintro ⟨key, same, bound⟩
      rwa [get_define, if_pos (injective same).symm] at bound
    · intro equal
      exact ⟨name, rfl, by rw [get_define, if_pos rfl, equal]⟩
  · rw [if_neg same, get_rename_iff injective]
    have other {key : String} (moved : rho key = query) : name ≠ key := by
      rintro rfl
      exact same moved
    constructor
    · rintro ⟨key, moved, bound⟩
      rw [get_define, if_neg (other moved)] at bound
      exact ⟨key, moved, bound⟩
    · rintro ⟨key, moved, bound⟩
      exact ⟨key, moved, by rw [get_define, if_neg (other moved), bound]⟩

end Env

theorem lookup_rename (env : Env) (token : Token) :
    (env.rename rho).lookup (token.rename rho) =
      (env.lookup token).mapError (RuntimeError.rename rho) := by
  have same := Env.get_rename injective env token.lexeme
  rw [Env.lookup, Env.lookup, Token.rename, same]
  cases env.get? token.lexeme <;> rfl

theorem eval_rename (env : Env) (e : Expr) :
    (e.rename rho).eval (env.rename rho) = (e.eval env).mapError (RuntimeError.rename rho) := by
  induction e with
  | literal value => rfl
  | name token => exact lookup_rename injective env token
  | group inner ih => exact ih
  | unary operator operand ih =>
    rw [Expr.rename, Expr.eval, Expr.eval, ih]
    cases operand.eval env with
    | error error => rfl
    | ok x => exact (blame_rename rho operator (apply_unary_known operator.kind x)).symm
  | binary left operator right ihLeft ihRight =>
    rw [Expr.rename, Expr.eval, Expr.eval, ihLeft, ihRight]
    cases left.eval env with
    | error error => rfl
    | ok x =>
      cases right.eval env with
      | error error => rfl
      | ok y => exact (blame_rename rho operator (apply_binary_known operator.kind x y)).symm

theorem effect_rename (env : Env) (stmt : Stmt) :
    (stmt.rename rho).effect (env.rename rho) =
      ((stmt.effect env).map (Effect.rename rho)).mapError (RuntimeError.rename rho) := by
  cases stmt with
  | expression value =>
    rw [Stmt.rename, Stmt.effect, Stmt.effect, eval_rename injective]
    cases value.eval env <;> rfl
  | print value =>
    rw [Stmt.rename, Stmt.effect, Stmt.effect, eval_rename injective]
    cases value.eval env <;> rfl
  | var name initial =>
    cases initial with
    | none => rfl
    | some value =>
      rw [Stmt.rename, Option.map_some, Stmt.effect, Stmt.effect, eval_rename injective]
      cases value.eval env <;> rfl

theorem after_rename (env : Env) (effect : Effect) :
    (env.rename rho).after (effect.rename rho) = (env.after effect).rename rho := by
  cases effect with
  | bind name value => exact (Env.rename_define injective env name value).symm
  | _ => rfl

theorem course_rename (env : Env) (stmts : List Stmt) :
    (env.rename rho).course (stmts.map (Stmt.rename rho)) = (env.course stmts).rename rho := by
  induction stmts generalizing env with
  | nil => rfl
  | cons stmt rest ih =>
    have effect := effect_rename injective env stmt
    rw [List.map_cons]
    cases outcome : stmt.effect env with
    | error error =>
      rw [outcome] at effect
      rw [Env.course_fault rest outcome, Env.course_fault _ effect]
      rfl
    | ok found =>
      rw [outcome] at effect
      rw [Env.course_effect rest outcome, Env.course_effect _ effect, after_rename injective, ih]
      rfl

theorem after_all_rename (machine : Machine) (effects : List Effect) :
    (machine.rename rho).afterAll (effects.map (Effect.rename rho)) =
      (machine.afterAll effects).rename rho := by
  have output : Effect.output ∘ Effect.rename rho = Effect.output := by
    funext effect
    cases effect <;> rfl
  have env : (effects.map (Effect.rename rho)).foldl Env.after (machine.env.rename rho) =
      (effects.foldl Env.after machine.env).rename rho := by
    generalize machine.env = env
    induction effects generalizing env with
    | nil => rfl
    | cons effect rest ih =>
      rw [List.map_cons, List.foldl_cons, List.foldl_cons, after_rename injective, ih]
  rw [Machine.afterAll, Machine.afterAll, Machine.rename, Machine.rename, List.map_map, output, env]

theorem interpret_renamed {machine : Machine} (reliable : machine.sink.Reliable)
    (stmts : List Stmt) :
    ((machine.rename rho).interpret (stmts.map (Stmt.rename rho))).1 =
        (machine.interpret stmts).1.rename rho ∧
      ((machine.rename rho).interpret (stmts.map (Stmt.rename rho))).2.result =
        (machine.interpret stmts).2.result ∧
      List.Forall₂ (Diagnostic.Renamed rho) (machine.interpret stmts).2.errors
        ((machine.rename rho).interpret (stmts.map (Stmt.rename rho))).2.errors := by
  have steady : (machine.rename rho).sink.Reliable := reliable
  have course : (machine.rename rho).env.course (stmts.map (Stmt.rename rho)) =
      (machine.env.course stmts).rename rho := course_rename injective machine.env stmts
  rw [Machine.interpret_reliable steady, Machine.interpret_reliable reliable, course]
  refine ⟨?_, rfl, ?_⟩
  · have after := after_all_rename injective machine (machine.env.course stmts).effects
    rw [Course.rename, after]
    rfl
  · cases faulty : (machine.env.course stmts).fault with
    | none => simp [Course.rename, faulty]
    | some error => simpa [Course.rename, faulty] using fault_renamed rho error

end

def exchanged : List Stmt :=
  [.print (.name ⟨.identifier, "a", 1⟩), .var ⟨.identifier, "a", 2⟩ none,
    .print (.unary ⟨.mark .bang, "!", 3⟩ (.name ⟨.identifier, "c", 3⟩)), .var ⟨.identifier, "c", 4⟩ none]

def exchangedMachine : Machine := ⟨Env.empty.define "a" (.string "c"), .new none false⟩

theorem interpret_renamed_exchanged :
    (Function.Injective (Equiv.swap "a" "c") ∧ exchangedMachine.sink.Reliable ∧
      (exchangedMachine.interpret exchanged).2.errors = [.runtime 3 "c" "Undefined variable 'c'."]) ∧
    ((exchangedMachine.rename (Equiv.swap "a" "c")).interpret
        (exchanged.map (Stmt.rename (Equiv.swap "a" "c")))).1 =
      (exchangedMachine.interpret exchanged).1.rename (Equiv.swap "a" "c") ∧
    List.Forall₂ (Diagnostic.Renamed (Equiv.swap "a" "c")) (exchangedMachine.interpret exchanged).2.errors
      ((exchangedMachine.rename (Equiv.swap "a" "c")).interpret
        (exchanged.map (Stmt.rename (Equiv.swap "a" "c")))).2.errors := by
  have injective : Function.Injective (Equiv.swap "a" "c") := (Equiv.swap "a" "c").injective
  have reliable : exchangedMachine.sink.Reliable := ⟨rfl, rfl⟩
  have told : (exchangedMachine.interpret exchanged).2.errors =
      [.runtime 3 "c" "Undefined variable 'c'."] := by rfl
  obtain ⟨after, _, errors⟩ := interpret_renamed injective reliable exchanged
  exact ⟨⟨injective, reliable, told⟩, after, errors⟩

end Lox
