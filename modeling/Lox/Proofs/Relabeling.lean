import Lox.Proofs.KindReading
import Lox.Source

set_option autoImplicit false

namespace Lox

section

variable (f : Token → Token)

def Expr.relabel : Expr → Expr
  | .literal value => .literal value
  | .name token => .name (f token)
  | .group inner => .group inner.relabel
  | .unary operator operand => .unary (f operator) operand.relabel
  | .binary left operator right => .binary left.relabel (f operator) right.relabel

def Stmt.relabel : Stmt → Stmt
  | .expression value => .expression (value.relabel f)
  | .print value => .print (value.relabel f)
  | .var name initial => .var (f name) (initial.map (Expr.relabel f))

structure Complaint where
  token : Token
  expected : Expectation

namespace Complaint

def diagnostic (complaint : Complaint) : Diagnostic :=
  .parseAt complaint.token complaint.expected.message

def relabel (complaint : Complaint) : Complaint := { complaint with token := f complaint.token }

end Complaint

namespace Program

-- An attempt that runs out of tokens is told of the end.
def complaint? (last : Token) : Except Failure Stmt → Option Complaint
  | .ok _ => none
  | .error failure => some ⟨failure.rest.headD last, failure.expected⟩

def complaints (tokens : List Token) : List Complaint :=
  match tokens.find? Token.isEnd with
  | none => []
  | some last => (attempts (body tokens)).filterMap (complaint? last)

theorem errors_complaints (tokens : List Token) :
    (read tokens).errors = (complaints tokens).map Complaint.diagnostic := by
  have told (last : Token) :
      diagnostic? last = fun attempt => (complaint? last attempt).map Complaint.diagnostic := by
    funext attempt
    cases attempt <;> rfl
  rw [complaints]
  cases found : tokens.find? Token.isEnd with
  | none =>
    rw [read, found]
    rfl
  | some last =>
    rw [read_ended found, told, List.map_filterMap]

end Program

theorem map_of_forall {α β : Type} {g : α → β} {xs : List α} {ys : List β}
    (each : List.Forall₂ (fun x y => g x = y) xs ys) : ys = xs.map g := by
  have same : List.Forall₂ Eq (xs.map g) ys := List.forall₂_map_left_iff.mpr each
  rw [List.forall₂_eq_eq_eq] at same
  exact same.symm

def Relabels (token other : Token) : Prop := f token = other

theorem expr_relabels {e e' : Expr} (alike : e.Alike (.ofTokens (Relabels f)) e') : e.relabel f = e' := by
  induction alike with
  | @literal x y same =>
    have same : x = y := same
    rw [Expr.relabel, same]
  | @name s t same =>
    have same : f s = t := same
    rw [Expr.relabel, same]
  | group _ ih => rw [Expr.relabel, ih]
  | @unary s t _ _ same _ ih =>
    have same : f s = t := same
    rw [Expr.relabel, same, ih]
  | @binary s t _ _ _ _ _ same _ ihLeft ihRight =>
    have same : f s = t := same
    rw [Expr.relabel, same, ihLeft, ihRight]

theorem stmt_relabels {stmt other : Stmt} (alike : stmt.Alike (.ofTokens (Relabels f)) other) :
    stmt.relabel f = other := by
  cases alike with
  | expression value => rw [Stmt.relabel, expr_relabels f value]
  | print value => rw [Stmt.relabel, expr_relabels f value]
  | @var s t _ _ same initial =>
    have same : f s = t := same
    cases initial with
    | none => rw [Stmt.relabel, same, Option.map_none]
    | some value => rw [Stmt.relabel, same, Option.map_some, expr_relabels f value]

namespace Program

theorem complaint_relabels {last : Token} {a b : Except Failure Stmt}
    (attempt : Agree (Failure.Alike (Relabels f)) (Stmt.Alike (.ofTokens (Relabels f))) a b) :
    Option.Rel (fun x y => Complaint.relabel f x = y) (complaint? last a) (complaint? (f last) b) := by
  cases attempt with
  | ok => exact .none
  | @error x y failed =>
    have ends : Relabels f last (f last) := rfl
    have misfit : f (x.rest.headD last) = y.rest.headD (f last) := misfit_alike ends failed
    refine .some ?_
    rw [Complaint.relabel, misfit, failed.expected]

end Program

theorem tokens_relabel (tokens : List Token) : List.Forall₂ (Relabels f) tokens (tokens.map f) := by
  rw [List.forall₂_map_right_iff, List.forall₂_same]
  exact fun _ _ => rfl

end

namespace Program

section

variable {f : Token → Token} (kinds : ∀ token, (f token).kind = token.kind)
include kinds

theorem relabels_kind {s t : Token} (relabels : Relabels f s t) : s.kind = t.kind := by
  cases relabels
  exact (kinds s).symm

theorem statements_relabel (tokens : List Token) :
    (read (tokens.map f)).statements = (read tokens).statements.map (Stmt.relabel f) := by
  have alike := (read_kinds_alike (fun _ _ => relabels_kind kinds) (tokens_relabel f tokens)).1
  exact map_of_forall (alike.imp fun _ _ same => stmt_relabels f same)

theorem complaints_relabel (tokens : List Token) :
    complaints (tokens.map f) = (complaints tokens).map (Complaint.relabel f) := by
  have same : ∀ s t, Relabels f s t → s.kind = t.kind := fun _ _ => relabels_kind kinds
  have each := tokens_relabel f tokens
  have ends := find_end_alike same each
  have tried := attempts_alike same (body_alike same each)
  rw [complaints, complaints]
  generalize tokens.find? Token.isEnd = a at ends ⊢
  generalize (tokens.map f).find? Token.isEnd = b at ends ⊢
  cases ends with
  | none => rfl
  | some last =>
    cases last
    exact map_of_forall (List.rel_filterMap (fun _ _ attempt => complaint_relabels f attempt) tried)

end

theorem read_relabeled {f : Token → Token} (kinds : ∀ token, (f token).kind = token.kind)
    (tokens : List Token) :
    (read (tokens.map f)).statements = (read tokens).statements.map (Stmt.relabel f) ∧
      (read tokens).errors = (complaints tokens).map Complaint.diagnostic ∧
      (read (tokens.map f)).errors = (complaints tokens).map fun complaint =>
        .parseAt (f complaint.token) complaint.expected.message := by
  refine ⟨statements_relabel kinds tokens, errors_complaints tokens, ?_⟩
  rw [errors_complaints, complaints_relabel kinds, List.map_map]
  rfl

def faulty : List Token := (scan "var a = -b; print (1 +;\nprint a == nil").tokens

def blurred (token : Token) : Token := ⟨token.kind, token.lexeme ++ "?", 7⟩

theorem read_relabeled_blurred :
    (∀ token, (blurred token).kind = token.kind) ∧
    (read faulty).errors = [.parse 1 " at ';'" "Expect expression.", .parse 2 " at end" "Expect ';' after value."] ∧
    (read (faulty.map blurred)).statements = (read faulty).statements.map (Stmt.relabel blurred) ∧
    (read (faulty.map blurred)).errors = (complaints faulty).map fun complaint =>
        .parseAt (blurred complaint.token) complaint.expected.message := by
  have kinds : ∀ token, (blurred token).kind = token.kind := fun _ => rfl
  have told : (read faulty).errors =
      [.parse 1 " at ';'" "Expect expression.", .parse 2 " at end" "Expect ';' after value."] := by
    decide +kernel
  obtain ⟨statements, _, errors⟩ := read_relabeled kinds faulty
  exact ⟨kinds, told, statements, errors⟩

end Program
end Lox
