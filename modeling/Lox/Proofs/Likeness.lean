import Lox.Proofs.Course
import Mathlib.Data.List.Forall2

/- Two programs of the same shape, compared through what they have in common at each place.
   If evaluation respects this likeness, their courses are alike too: the same statements
   have an effect, and the one behind them is at fault in both or in neither. -/
set_option autoImplicit false

namespace Lox

inductive Agree {ε δ α β : Type} (faults : ε → δ → Prop) (values : α → β → Prop) :
    Except ε α → Except δ β → Prop where
  | ok {x : α} {y : β} (same : values x y) : Agree faults values (.ok x) (.ok y)
  | error {x : ε} {y : δ} (same : faults x y) : Agree faults values (.error x) (.error y)

theorem Agree.same {ε α : Type} (x : Except ε α) : Agree Eq Eq x x := by
  cases x with
  | ok => exact .ok rfl
  | error => exact .error rfl

theorem Agree.map {ε δ α β α' β' : Type} {faults : ε → δ → Prop} {values : α → β → Prop}
    {results : α' → β' → Prop} {f : α → α'} {g : β → β'} {x : Except ε α} {y : Except δ β}
    (each : ∀ {x y}, values x y → results (f x) (g y)) (agree : Agree faults values x y) :
    Agree faults results (x.map f) (y.map g) := by
  cases agree with
  | ok same => exact .ok (each same)
  | error same => exact .error same

structure Likeness where
  value : Value → Value → Prop
  name : Token → Token → Prop
  operator : Token → Token → Prop

inductive Expr.Alike (like : Likeness) : Expr → Expr → Prop where
  | literal {x y : Value} (same : like.value x y) : Alike like (.literal x) (.literal y)
  | name {s t : Token} (same : like.name s t) : Alike like (.name s) (.name t)
  | group {e f : Expr} (inner : Alike like e f) : Alike like (.group e) (.group f)
  | unary {s t : Token} {e f : Expr} (same : like.operator s t) (operand : Alike like e f) :
      Alike like (.unary s e) (.unary t f)
  | binary {s t : Token} {e f e' f' : Expr} (left : Alike like e f) (same : like.operator s t)
      (right : Alike like e' f') : Alike like (.binary e s e') (.binary f t f')

inductive Stmt.Alike (like : Likeness) : Stmt → Stmt → Prop where
  | expression {e f : Expr} (value : e.Alike like f) : Alike like (.expression e) (.expression f)
  | print {e f : Expr} (value : e.Alike like f) : Alike like (.print e) (.print f)
  | var {s t : Token} {e f : Option Expr} (same : like.name s t)
      (initial : Option.Rel (Expr.Alike like) e f) : Alike like (.var s e) (.var t f)

-- What evaluation needs of a likeness: it never tells alike operands apart.
structure Likeness.Lawful (like : Likeness) : Prop where
  kinds : ∀ {s t : Token}, like.operator s t → s.kind = t.kind
  lexemes : ∀ {s t s' t' : Token}, like.name s t → like.name s' t' →
    (s.lexeme = s'.lexeme ↔ t.lexeme = t'.lexeme)
  nil : like.value .nil .nil
  unary : ∀ (kind : TokenKind) {x y : Value}, like.value x y →
    Agree Eq like.value (kind.applyUnary x) (kind.applyUnary y)
  binary : ∀ (kind : TokenKind) {x y x' y' : Value}, like.value x y → like.value x' y' →
    Agree Eq like.value (kind.applyBinary x x') (kind.applyBinary y y')

def Env.Alike (like : Likeness) (a b : Env) : Prop :=
  ∀ s t : Token, like.name s t → Option.Rel like.value (a.get? s.lexeme) (b.get? t.lexeme)

structure RuntimeError.Alike (like : Likeness) (e f : RuntimeError) : Prop where
  fault : e.fault = f.fault
  token : like.name e.token f.token ∨ like.operator e.token f.token

inductive Effect.Alike (like : Likeness) : Effect → Effect → Prop where
  | nothing : Alike like .nothing .nothing
  | bind {s t : Token} {x y : Value} (same : like.name s t) (value : like.value x y) :
      Alike like (.bind s.lexeme x) (.bind t.lexeme y)
  | print {x y : Value} (value : like.value x y) :
      Alike like (.print (x.text ++ "\n")) (.print (y.text ++ "\n"))

structure Course.Alike (like : Likeness) (a b : Course) : Prop where
  effects : List.Forall₂ (Effect.Alike like) a.effects b.effects
  fault : Option.Rel (RuntimeError.Alike like) a.fault b.fault

section

variable {like : Likeness} {a b : Env}

theorem lookup_alike (envs : a.Alike like b) {s t : Token} (same : like.name s t) :
    Agree (RuntimeError.Alike like) like.value (a.lookup s) (b.lookup t) := by
  have bound := envs s t same
  rw [Env.lookup, Env.lookup]
  generalize a.get? s.lexeme = x at bound ⊢
  generalize b.get? t.lexeme = y at bound ⊢
  cases bound with
  | some value => exact .ok value
  | none => exact .error ⟨rfl, .inl same⟩

theorem blame_alike {s t : Token} (same : like.operator s t) {x y : Except RuntimeFault Value}
    (agree : Agree Eq like.value x y) :
    Agree (RuntimeError.Alike like) like.value (s.blame x) (t.blame y) := by
  cases agree with
  | ok value => exact .ok value
  | error fault => exact .error ⟨fault, .inr same⟩

theorem eval_alike (lawful : like.Lawful) (envs : a.Alike like b) {e f : Expr}
    (same : e.Alike like f) : Agree (RuntimeError.Alike like) like.value (e.eval a) (f.eval b) := by
  induction same with
  | literal value => exact .ok value
  | name same => exact lookup_alike envs same
  | group _ ih => exact ih
  | @unary s t e f same _ ih =>
    rw [Expr.eval, Expr.eval]
    generalize e.eval a = x at ih ⊢
    generalize f.eval b = y at ih ⊢
    cases ih with
    | error fault => exact .error fault
    | ok value =>
      dsimp only
      rw [lawful.kinds same]
      exact blame_alike same (lawful.unary _ value)
  | @binary s t e f e' f' _ same _ ihLeft ihRight =>
    rw [Expr.eval, Expr.eval]
    generalize e.eval a = x at ihLeft ⊢
    generalize f.eval b = y at ihLeft ⊢
    cases ihLeft with
    | error fault => exact .error fault
    | ok left =>
      generalize e'.eval a = x' at ihRight ⊢
      generalize f'.eval b = y' at ihRight ⊢
      cases ihRight with
      | error fault => exact .error fault
      | ok right =>
        dsimp only
        rw [lawful.kinds same]
        exact blame_alike same (lawful.binary _ left right)

theorem effect_alike (lawful : like.Lawful) (envs : a.Alike like b) {stmt other : Stmt}
    (same : stmt.Alike like other) :
    Agree (RuntimeError.Alike like) (Effect.Alike like) (stmt.effect a) (other.effect b) := by
  cases same with
  | expression value => exact (eval_alike lawful envs value).map fun _ => .nothing
  | print value => exact (eval_alike lawful envs value).map .print
  | var same initial =>
    cases initial with
    | none => exact .ok (.bind same lawful.nil)
    | some value => exact (eval_alike lawful envs value).map (.bind same)

theorem after_alike (lawful : like.Lawful) (envs : a.Alike like b) {x y : Effect}
    (same : x.Alike like y) : (a.after x).Alike like (b.after y) := by
  cases same with
  | nothing => exact envs
  | print => exact envs
  | @bind s t x y same value =>
    intro s' t' other
    rw [Env.after, Env.after, Env.get_define, Env.get_define]
    by_cases equal : s.lexeme = s'.lexeme
    · rw [if_pos equal, if_pos ((lawful.lexemes same other).mp equal)]
      exact .some value
    · rw [if_neg equal, if_neg fun found => equal ((lawful.lexemes same other).mpr found)]
      exact envs s' t' other

theorem after_all_alike (lawful : like.Lawful) (envs : a.Alike like b) {xs ys : List Effect}
    (same : List.Forall₂ (Effect.Alike like) xs ys) :
    (xs.foldl Env.after a).Alike like (ys.foldl Env.after b) := by
  induction same generalizing a b with
  | nil => exact envs
  | cons first _ ih => exact ih (after_alike lawful envs first)

theorem course_alike (lawful : like.Lawful) (envs : a.Alike like b) {stmts others : List Stmt}
    (same : List.Forall₂ (Stmt.Alike like) stmts others) :
    (a.course stmts).Alike like (b.course others) := by
  induction same generalizing a b with
  | nil => exact ⟨.nil, .none⟩
  | @cons stmt other rest later first _ ih =>
    have agree := effect_alike lawful envs first
    generalize left : stmt.effect a = x at agree
    generalize right : other.effect b = y at agree
    cases agree with
    | error fault =>
      rw [Env.course_fault rest left, Env.course_fault later right]
      exact ⟨.nil, .some fault⟩
    | ok effect =>
      obtain ⟨effects, fault⟩ := ih (after_alike lawful envs effect)
      rw [Env.course_effect rest left, Env.course_effect later right]
      exact ⟨.cons effect effects, fault⟩

end

end Lox
