import Lox.Proofs.ValueKinds

set_option autoImplicit false

namespace Lox

def Value.isNumber : Value → Bool
  | .number _ => true
  | _ => false

def Value.isString : Value → Bool
  | .string _ => true
  | _ => false

def Expr.postorder : Expr → List Expr
  | .literal value => [.literal value]
  | .name token => [.name token]
  | .group inner => inner.postorder ++ [.group inner]
  | .unary operator operand => operand.postorder ++ [.unary operator operand]
  | .binary left operator right =>
    left.postorder ++ (right.postorder ++ [.binary left operator right])

-- A node that is at fault although its operands have values, and what is told of it.
inductive Expr.Fails (env : Env) : Expr → Diagnostic → Prop where
  | name {token : Token} (unbound : env.get? token.lexeme = none) :
      Fails env (.name token)
        (.runtime token.line token.lexeme ("Undefined variable '" ++ token.lexeme ++ "'."))
  | negation {operator : Token} {operand : Expr} {x : Value} (minus : operator.kind = .mark .minus)
      (value : operand.eval env = .ok x) (other : ¬ x.isNumber) :
      Fails env (.unary operator operand)
        (.runtime operator.line operator.lexeme "Operand must be a number.")
  | addition {operator : Token} {left right : Expr} {x y : Value}
      (plus : operator.kind = .mark .plus) (first : left.eval env = .ok x) (second : right.eval env = .ok y)
      (other : ¬ (x.isNumber ∧ y.isNumber ∨ x.isString ∧ y.isString)) :
      Fails env (.binary left operator right)
        (.runtime operator.line operator.lexeme "Operands must be two numbers or two strings.")
  | numbers {operator : Token} {left right : Expr} {x y : Value}
      (joins : operator.kind ∉ [.mark .plus, .mark .equalEqual, .mark .bangEqual])
      (first : left.eval env = .ok x) (second : right.eval env = .ok y)
      (other : ¬ (x.isNumber ∧ y.isNumber)) :
      Fails env (.binary left operator right)
        (.runtime operator.line operator.lexeme "Operands must be numbers.")

namespace TokenKind

theorem apply_unary_fault {kind : TokenKind} {x : Value} {fault : RuntimeFault} :
    kind.applyUnary x = .error fault ↔
      kind = .mark .minus ∧ ¬ x.isNumber ∧ fault = .numberOperand := by
  cases kind with
  | mark mark =>
    cases mark with
    | minus => cases x <;> simp [applyUnary, Value.isNumber, eq_comm]
    | _ => simp [applyUnary]
  | _ => simp [applyUnary]

theorem add_fault {x y : Value} {fault : RuntimeFault} :
    add x y = .error fault ↔
      ¬ (x.isNumber ∧ y.isNumber ∨ x.isString ∧ y.isString) ∧ fault = .additionOperands := by
  cases x <;> cases y <;> simp [add, Value.isNumber, Value.isString, eq_comm]

theorem join_numbers_fault {kind : TokenKind} {x y : Value} {fault : RuntimeFault} :
    kind.joinNumbers x y = .error fault ↔ ¬ (x.isNumber ∧ y.isNumber) ∧ fault = .numberOperands := by
  cases x <;> cases y <;> simp [joinNumbers, Value.isNumber, eq_comm]

theorem apply_binary_joins {kind : TokenKind}
    (joins : kind ∉ [.mark .plus, .mark .equalEqual, .mark .bangEqual]) (x y : Value) :
    kind.applyBinary x y = kind.joinNumbers x y := by
  cases kind with
  | mark mark =>
    cases mark with
    | plus => simp at joins
    | equalEqual => simp at joins
    | bangEqual => simp at joins
    | _ => rfl
  | _ => rfl

theorem apply_binary_fault {kind : TokenKind} {x y : Value} {fault : RuntimeFault} :
    kind.applyBinary x y = .error fault ↔
      (kind = .mark .plus ∧ add x y = .error fault) ∨
        (kind ∉ [.mark .plus, .mark .equalEqual, .mark .bangEqual] ∧
          kind.joinNumbers x y = .error fault) := by
  by_cases joins : kind ∈ [.mark .plus, .mark .equalEqual, .mark .bangEqual]
  · simp only [List.mem_cons, List.not_mem_nil, or_false] at joins
    rcases joins with rfl | rfl | rfl
    · simp [applyBinary]
    · simp [applyBinary]
    · simp [applyBinary]
  · have plus : kind ≠ .mark .plus := fun same => joins (by simp [same])
    simp [apply_binary_joins joins, joins, plus]

end TokenKind

def told? : Except RuntimeError Value → Option Diagnostic
  | .ok _ => none
  | .error error => some error.diagnostic

def Expr.failure? (env : Env) : Expr → Option Diagnostic
  | .name token => told? (env.lookup token)
  | .unary operator operand =>
    match operand.eval env with
    | .ok x => told? (operator.blame (operator.kind.applyUnary x))
    | .error _ => none
  | .binary left operator right =>
    match left.eval env, right.eval env with
    | .ok x, .ok y => told? (operator.blame (operator.kind.applyBinary x y))
    | _, _ => none
  | _ => none

theorem told_blame_iff {operator : Token} {result : Except RuntimeFault Value} {told : Diagnostic} :
    told? (operator.blame result) = some told ↔
      ∃ fault, result = .error fault ∧ RuntimeError.diagnostic ⟨fault, operator⟩ = told := by
  cases result <;> simp [Token.blame, told?]

theorem failure_iff {env : Env} {node : Expr} {told : Diagnostic} :
    node.failure? env = some told ↔ node.Fails env told := by
  constructor
  · intro found
    cases node with
    | literal value => cases found
    | name token =>
      rw [Expr.failure?, Env.lookup] at found
      cases bound : env.get? token.lexeme with
      | some value =>
        rw [bound] at found
        cases found
      | none =>
        rw [bound] at found
        cases found
        exact .name bound
    | group inner => cases found
    | unary operator operand =>
      rw [Expr.failure?] at found
      cases value : operand.eval env with
      | error error =>
        rw [value] at found
        cases found
      | ok x =>
        rw [value] at found
        obtain ⟨fault, fails, rfl⟩ := told_blame_iff.mp found
        obtain ⟨minus, other, rfl⟩ := TokenKind.apply_unary_fault.mp fails
        exact .negation minus value other
    | binary left operator right =>
      rw [Expr.failure?] at found
      cases first : left.eval env with
      | error error =>
        rw [first] at found
        cases found
      | ok x =>
        cases second : right.eval env with
        | error error =>
          rw [first, second] at found
          cases found
        | ok y =>
          rw [first, second] at found
          obtain ⟨fault, fails, rfl⟩ := told_blame_iff.mp found
          rcases TokenKind.apply_binary_fault.mp fails with ⟨plus, fails⟩ | ⟨joins, fails⟩
          · obtain ⟨other, rfl⟩ := TokenKind.add_fault.mp fails
            exact .addition plus first second other
          · obtain ⟨other, rfl⟩ := TokenKind.join_numbers_fault.mp fails
            exact .numbers joins first second other
  · intro fails
    cases fails with
    | name unbound =>
      rw [Expr.failure?, Env.lookup, unbound]
      rfl
    | negation minus value other =>
      rw [Expr.failure?, value]
      exact told_blame_iff.mpr ⟨_, TokenKind.apply_unary_fault.mpr ⟨minus, other, rfl⟩, rfl⟩
    | addition plus first second other =>
      rw [Expr.failure?, first, second]
      exact told_blame_iff.mpr ⟨_, TokenKind.apply_binary_fault.mpr
        (.inl ⟨plus, TokenKind.add_fault.mpr ⟨other, rfl⟩⟩), rfl⟩
    | numbers joins first second other =>
      rw [Expr.failure?, first, second]
      exact told_blame_iff.mpr ⟨_, TokenKind.apply_binary_fault.mpr
        (.inr ⟨joins, TokenKind.join_numbers_fault.mpr ⟨other, rfl⟩⟩), rfl⟩

theorem failure_none_iff {env : Env} {node : Expr} :
    node.failure? env = none ↔ ∀ told, ¬ node.Fails env told := by
  simp only [← failure_iff, Option.eq_none_iff_forall_ne_some, ne_eq]

theorem first_failure (env : Env) (e : Expr) :
    e.postorder.findSome? (Expr.failure? env) = told? (e.eval env) := by
  induction e with
  | literal value => rfl
  | name token =>
    rw [Expr.postorder, List.findSome?_singleton]
    rfl
  | group inner ih =>
    rw [Expr.postorder, List.findSome?_append, ih, Expr.eval]
    simp [Expr.failure?]
  | unary operator operand ih =>
    rw [Expr.postorder, List.findSome?_append, ih, Expr.eval, List.findSome?_singleton, Expr.failure?]
    cases operand.eval env with
    | ok x => rfl
    | error error => rfl
  | binary left operator right ihLeft ihRight =>
    rw [Expr.postorder, List.findSome?_append, List.findSome?_append, ihLeft, ihRight, Expr.eval,
      List.findSome?_singleton, Expr.failure?]
    cases left.eval env with
    | error error => rfl
    | ok x =>
      cases right.eval env with
      | error error => rfl
      | ok y => rfl

theorem eval_told_iff {env : Env} {e : Expr} {told : Diagnostic} :
    (∃ error, e.eval env = .error error ∧ error.diagnostic = told) ↔ told? (e.eval env) = some told := by
  cases e.eval env <;> simp [told?]

theorem eval_first_failure (env : Env) (e : Expr) :
    ((∃ error, e.eval env = .error error) ↔ ∃ node ∈ e.postorder, ∃ told, node.Fails env told) ∧
    ∀ told : Diagnostic, (∃ error, e.eval env = .error error ∧ error.diagnostic = told) ↔
      ∃ before node after, e.postorder = before ++ node :: after ∧
        (∀ earlier ∈ before, ∀ other, ¬ earlier.Fails env other) ∧ node.Fails env told := by
  refine ⟨?_, ?_⟩
  · have first := first_failure env e
    constructor
    · rintro ⟨error, fails⟩
      rw [fails] at first
      obtain ⟨node, member, found⟩ := List.exists_of_findSome?_eq_some first
      exact ⟨node, member, _, failure_iff.mp found⟩
    · rintro ⟨node, member, told, fails⟩
      cases value : e.eval env with
      | error error => exact ⟨error, rfl⟩
      | ok x =>
        rw [value] at first
        have none := List.findSome?_eq_none_iff.mp first node member
        exact absurd fails (failure_none_iff.mp none told)
  · intro told
    rw [eval_told_iff, ← first_failure, List.findSome?_eq_some_iff]
    simp only [failure_iff, failure_none_iff]
    constructor
    · rintro ⟨before, node, after, split, fails, earlier⟩
      exact ⟨before, node, after, split, earlier, fails⟩
    · rintro ⟨before, node, after, split, earlier, fails⟩
      exact ⟨before, node, after, split, fails, earlier⟩

example : told? (Expr.eval .empty
    (.binary (.unary ⟨.mark .minus, "-", 1⟩ (.name ⟨.identifier, "x", 1⟩)) ⟨.mark .plus, "+", 2⟩
      (.unary ⟨.mark .minus, "-", 3⟩ (.literal .nil)))) =
    some (.runtime 1 "x" "Undefined variable 'x'.") := by
  rfl

end Lox
