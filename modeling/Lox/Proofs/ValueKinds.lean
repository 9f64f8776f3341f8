import Lox.Proofs.Execution
import Lox.Proofs.Likeness

set_option autoImplicit false

namespace Lox

inductive Value.SameKind : Value → Value → Prop where
  | nil : SameKind .nil .nil
  | boolean (x y : Bool) : SameKind (.boolean x) (.boolean y)
  | number (x y : Float) : SameKind (.number x) (.number y)
  | string (x y : String) : SameKind (.string x) (.string y)

def Likeness.ofKind : Likeness := ⟨Value.SameKind, Eq, Eq⟩

def Env.SameKinds (a b : Env) : Prop :=
  ∀ name : String, Option.Rel Value.SameKind (a.get? name) (b.get? name)

def Stmt.isPrint : Stmt → Bool
  | .print _ => true
  | _ => false

namespace TokenKind

theorem combine_numbers_kind (kind : TokenKind) (x y x' y' : Float) :
    (kind.combineNumbers x y).SameKind (kind.combineNumbers x' y') := by
  rw [combineNumbers.eq_def, combineNumbers.eq_def]
  split <;> constructor

theorem add_kind {x y x' y' : Value} (left : x.SameKind y) (right : x'.SameKind y') :
    Agree Eq Value.SameKind (add x x') (add y y') := by
  cases left with
  | number =>
    cases right with
    | number => exact .ok (.number _ _)
    | _ => exact .error rfl
  | string =>
    cases right with
    | string => exact .ok (.string _ _)
    | _ => exact .error rfl
  | _ => exact .error rfl

theorem apply_unary_kind (kind : TokenKind) {x y : Value} (same : x.SameKind y) :
    Agree Eq Value.SameKind (kind.applyUnary x) (kind.applyUnary y) := by
  cases kind with
  | mark mark =>
    cases mark with
    | minus =>
      cases same with
      | number => exact .ok (.number _ _)
      | _ => exact .error rfl
    | bang => exact .ok (.boolean _ _)
    | _ => exact .ok .nil
  | _ => exact .ok .nil

def joinNumbers (kind : TokenKind) : Value → Value → Except RuntimeFault Value
  | .number x, .number y => .ok (kind.combineNumbers x y)
  | _, _ => .error .numberOperands

theorem join_numbers_kind (kind : TokenKind) {x y x' y' : Value} (left : x.SameKind y)
    (right : x'.SameKind y') :
    Agree Eq Value.SameKind (kind.joinNumbers x x') (kind.joinNumbers y y') := by
  cases left with
  | number =>
    cases right with
    | number => exact .ok (combine_numbers_kind kind ..)
    | _ => exact .error rfl
  | _ => exact .error rfl

theorem apply_binary_kind (kind : TokenKind) {x y x' y' : Value} (left : x.SameKind y)
    (right : x'.SameKind y') :
    Agree Eq Value.SameKind (kind.applyBinary x x') (kind.applyBinary y y') := by
  have numbers := join_numbers_kind kind left right
  cases kind with
  | mark mark =>
    cases mark with
    | equalEqual => exact .ok (.boolean _ _)
    | bangEqual => exact .ok (.boolean _ _)
    | plus => exact add_kind left right
    | _ => exact numbers
  | _ => exact numbers

theorem apply_unary_number (kind : TokenKind) (x : Float) :
    ∃ value, kind.applyUnary (.number x) = .ok value := by
  cases kind with
  | mark mark => cases mark <;> exact ⟨_, rfl⟩
  | _ => exact ⟨_, rfl⟩

theorem apply_binary_number (kind : TokenKind) (x y : Float) :
    ∃ value, kind.applyBinary (.number x) (.number y) = .ok value := by
  cases kind with
  | mark mark => cases mark <;> exact ⟨_, rfl⟩
  | _ => exact ⟨_, rfl⟩

end TokenKind

theorem Likeness.of_kind_lawful : Likeness.ofKind.Lawful where
  kinds := congrArg Token.kind
  lexemes := by
    intro s t s' t' same same'
    cases same
    cases same'
    exact Iff.rfl
  nil := .nil
  unary := TokenKind.apply_unary_kind
  binary := TokenKind.apply_binary_kind

theorem Env.alike_of_kinds {a b : Env} (envs : a.SameKinds b) : a.Alike .ofKind b := by
  intro s t same
  cases same
  exact envs s.lexeme

theorem Env.kinds_of_alike {a b : Env} (envs : a.Alike .ofKind b) : a.SameKinds b := by
  intro name
  exact envs ⟨.identifier, name, 1⟩ ⟨.identifier, name, 1⟩ rfl

theorem is_print_alike {like : Likeness} {stmt other : Stmt} (same : stmt.Alike like other) :
    stmt.isPrint = other.isPrint := by
  cases same <;> rfl

theorem fault_of_kind {x y : Option RuntimeError}
    (same : Option.Rel (RuntimeError.Alike .ofKind) x y) : x = y := by
  cases same with
  | none => rfl
  | @some e f same =>
    obtain ⟨fault, token⟩ := same
    have token : e.token = f.token := token.elim id id
    cases e
    cases f
    cases fault
    cases token
    rfl

theorem prints_alike {like : Likeness} {stmts others : List Stmt}
    (same : List.Forall₂ (Stmt.Alike like) stmts others) (count : Nat) :
    (stmts.take count).countP Stmt.isPrint = (others.take count).countP Stmt.isPrint := by
  induction same generalizing count with
  | nil => rfl
  | cons first _ ih =>
    cases count with
    | zero => rfl
    | succ count =>
      rw [List.take_succ_cons, List.take_succ_cons, List.countP_cons, List.countP_cons, ih,
        is_print_alike first]

theorem faults_by_kind {a b : Machine} {stmts others : List Stmt} (steady : a.sink.Reliable)
    (steady' : b.sink.Reliable) (envs : a.env.SameKinds b.env)
    (same : List.Forall₂ (Stmt.Alike .ofKind) stmts others) :
    (∃ count left left' error, a.Halts stmts count left error ∧ b.Halts others count left' error ∧
      (stmts.take count).countP Stmt.isPrint = (others.take count).countP Stmt.isPrint ∧
      (a.interpret stmts).2 = ⟨error.toList.map RuntimeError.diagnostic, .ok ()⟩ ∧
      (b.interpret others).2 = ⟨error.toList.map RuntimeError.diagnostic, .ok ()⟩) ∧
    (a.interpret stmts).1.env.SameKinds (b.interpret others).1.env ∧
    ∀ (kind : TokenKind) (x y : Float), (∃ value, kind.applyUnary (.number x) = .ok value) ∧
      ∃ value, kind.applyBinary (.number x) (.number y) = .ok value := by
  have alike := Env.alike_of_kinds envs
  obtain ⟨effects, fault⟩ := course_alike Likeness.of_kind_lawful alike same
  have count := effects.length_eq
  have fault := fault_of_kind fault
  have halts := Machine.halts_course steady stmts
  rw [count, fault] at halts
  rw [Machine.interpret_reliable steady, Machine.interpret_reliable steady', fault]
  refine ⟨⟨_, _, _, _, halts, Machine.halts_course steady' others, prints_alike same _, rfl, rfl⟩, ?_, ?_⟩
  · exact Env.kinds_of_alike (after_all_alike Likeness.of_kind_lawful alike effects)
  · intro kind x y
    exact ⟨kind.apply_unary_number x, kind.apply_binary_number x y⟩

-- A number is divided by y, and then x, which is a string, is negated.
def quotients (dividend : Float) : List Stmt :=
  [.print (.binary (.literal (.number dividend)) ⟨.mark .slash, "/", 1⟩ (.name ⟨.identifier, "y", 1⟩)),
    .print (.unary ⟨.mark .minus, "-", 2⟩ (.name ⟨.identifier, "x", 2⟩)), .print (.literal .nil)]

def quotientsMachine (divisor : Float) (text : String) : Machine :=
  ⟨(Env.empty.define "y" (.number divisor)).define "x" (.string text), .new none false⟩

def stringNegated : RuntimeError := ⟨.numberOperand, ⟨.mark .minus, "-", 2⟩⟩

theorem faults_by_kind_quotients :
    ((quotientsMachine 0 "s").sink.Reliable ∧ (quotientsMachine 2 "t").sink.Reliable ∧
      (quotientsMachine 0 "s").env.SameKinds (quotientsMachine 2 "t").env ∧
      List.Forall₂ (Stmt.Alike .ofKind) (quotients 1) (quotients 3)) ∧
    (∃ left left', (quotientsMachine 0 "s").Halts (quotients 1) 1 left (some stringNegated) ∧
      (quotientsMachine 2 "t").Halts (quotients 3) 1 left' (some stringNegated)) ∧
    ((quotientsMachine 0 "s").interpret (quotients 1)).2.errors =
      [.runtime 2 "-" "Operand must be a number."] ∧
    ((quotientsMachine 2 "t").interpret (quotients 3)).2.errors =
      [.runtime 2 "-" "Operand must be a number."] ∧
    ((quotientsMachine 0 "s").interpret (quotients 1)).1.env.SameKinds
      ((quotientsMachine 2 "t").interpret (quotients 3)).1.env := by
  have steady (divisor : Float) (text : String) : (quotientsMachine divisor text).sink.Reliable :=
    ⟨rfl, rfl⟩
  have envs : (quotientsMachine 0 "s").env.SameKinds (quotientsMachine 2 "t").env := by
    intro name
    simp only [quotientsMachine, Env.get_define, Env.get_empty]
    split
    · exact .some (.string _ _)
    · split
      · exact .some (.number _ _)
      · exact .none
  have same : List.Forall₂ (Stmt.Alike .ofKind) (quotients 1) (quotients 3) :=
    .cons (.print (.binary (.literal (.number _ _)) rfl (.name rfl)))
      (.cons (.print (.unary rfl (.name rfl))) (.cons (.print (.literal .nil)) .nil))
  obtain ⟨⟨count, left, left', error, halts, halts', _, report, report'⟩, kinds, _⟩ :=
    faults_by_kind (steady 0 "s") (steady 2 "t") envs same
  have known : (quotientsMachine 0 "s").Halts (quotients 1) 1 _ (some stringNegated) :=
    .fault (.cons rfl .nil) rfl rfl
  obtain ⟨rfl, _, rfl⟩ := Machine.halts_unique (steady 0 "s") halts known
  refine ⟨⟨steady .., steady .., envs, same⟩, ⟨left, left', halts, halts'⟩, ?_, ?_, kinds⟩
  · rw [report]
    rfl
  · rw [report']
    rfl

end Lox
