import Lox.Proofs.Attempts
import Lox.Proofs.Likeness

set_option autoImplicit false

namespace Lox

def Likeness.ofTokens (same : Token → Token → Prop) : Likeness := ⟨Eq, same, same⟩

inductive Opening.Alike (same : Token → Token → Prop) : Opening → Opening → Prop where
  | sign : Alike same .sign .sign
  | paren : Alike same .paren .paren
  | atom {e f : Expr} (value : e.Alike (.ofTokens same) f) : Alike same (.atom e) (.atom f)

inductive Frame.Alike (same : Token → Token → Prop) : Frame → Frame → Prop where
  | group : Alike same .group .group
  | sign {s t : Token} (operator : same s t) : Alike same (.sign s) (.sign t)
  | left {s t : Token} {e f : Expr} (operand : e.Alike (.ofTokens same) f) (operator : same s t)
      (level : Level) : Alike same (.left e s level) (.left f t level)

structure Failure.Alike (same : Token → Token → Prop) (a b : Failure) : Prop where
  expected : a.expected = b.expected
  rest : List.Forall₂ same a.rest b.rest

def Reading.Alike {α : Type} (same : Token → Token → Prop) (values : α → α → Prop) :
    Reading α → Reading α → Prop :=
  Agree (Failure.Alike same) fun a b => values a.1 b.1 ∧ List.Forall₂ same a.2 b.2

theorem and_then_alike {α β : Type} {same : Token → Token → Prop} {values : α → α → Prop}
    {results : β → β → Prop} {first other : Reading α} {next next' : α → List Token → Reading β}
    (before : Reading.Alike same values first other)
    (after : ∀ {x y : α} {xs ys : List Token}, values x y → List.Forall₂ same xs ys →
      Reading.Alike same results (next x xs) (next' y ys)) :
    Reading.Alike same results (first.andThen next) (other.andThen next') := by
  cases before with
  | ok found => exact after found.1 found.2
  | error failed => exact .error failed

inductive SettledAlike (same : Token → Token → Prop) :
    Expr × List Frame → Expr × List Frame → Prop where
  | whole {e f : Expr} (value : e.Alike (.ofTokens same) f) : SettledAlike same (e, []) (f, [])
  | part {e f : Expr} {x y : Frame} {stack others : List Frame} (value : e.Alike (.ofTokens same) f)
      (inner : x.Alike same y) (outer : List.Forall₂ (Frame.Alike same) stack others) :
      SettledAlike same (e, x :: stack) (f, y :: others)

theorem settle_alike {same : Token → Token → Prop} {stack others : List Frame}
    (frames : List.Forall₂ (Frame.Alike same) stack others) (level : Level) {e f : Expr}
    (value : e.Alike (.ofTokens same) f) :
    SettledAlike same (Frame.settle level e stack) (Frame.settle level f others) := by
  induction frames generalizing e f with
  | nil =>
    simp only [Frame.settle]
    exact .whole value
  | cons first later ih =>
    cases first with
    | group =>
      rw [Frame.settle_group, Frame.settle_group]
      exact .part value .group later
    | sign operator =>
      rw [Frame.settle_sign, Frame.settle_sign]
      exact ih (.unary operator value)
    | left operand operator opened =>
      by_cases loose : level.rank ≤ opened.rank
      · rw [Frame.settle_left loose, Frame.settle_left loose]
        exact ih (.binary operand operator value)
      · rw [Frame.settle, Frame.settle, if_neg loose, if_neg loose]
        exact .part value (.left operand operator opened) later

section

variable {same : Token → Token → Prop} (kinds : ∀ s t, same s t → s.kind = t.kind)
include kinds

theorem opening_alike {s t : Token} (alike : same s t) :
    Option.Rel (Opening.Alike same) s.opening? t.opening? := by
  rw [Token.opening?, Token.opening?, ← kinds s t alike]
  generalize s.kind = kind
  split
  · exact .some .sign
  · exact .some .sign
  · exact .some .paren
  · exact .some (.atom (.name alike))
  · exact .some (.atom (.literal rfl))
  · exact .some (.atom (.literal rfl))
  · exact .some (.atom (.literal rfl))
  · exact .some (.atom (.literal rfl))
  · exact .some (.atom (.literal rfl))
  · exact .none

theorem level_alike {s t : Token} (alike : same s t) : s.level? = t.level? := by
  rw [Token.level?, Token.level?, kinds s t alike]

theorem is_mark_alike {s t : Token} (alike : same s t) (mark : Mark) : s.isMark mark = t.isMark mark := by
  rw [Token.isMark, Token.isMark, kinds s t alike]

theorem is_keyword_alike {s t : Token} (alike : same s t) (word : Keyword) :
    s.isKeyword word = t.isKeyword word := by
  rw [Token.isKeyword, Token.isKeyword, kinds s t alike]

theorem is_name_alike {s t : Token} (alike : same s t) : s.isName = t.isName := by
  rw [Token.isName, Token.isName, kinds s t alike]

theorem is_end_alike {s t : Token} (alike : same s t) : s.isEnd = t.isEnd := by
  rw [Token.isEnd, Token.isEnd, kinds s t alike]

theorem starts_statement_alike {s t : Token} (alike : same s t) :
    s.startsStatement = t.startsStatement := by
  rw [Token.startsStatement.eq_def, Token.startsStatement.eq_def, kinds s t alike]

namespace Expr

theorem read_alike {xs ys : List Token} (tokens : List.Forall₂ same xs ys) :
    (∀ {stack others : List Frame} (floor : Level), List.Forall₂ (Frame.Alike same) stack others →
      Reading.Alike same (Expr.Alike (.ofTokens same)) (readOperand floor stack xs)
        (readOperand floor others ys)) ∧
    (∀ {stack others : List Frame} {e f : Expr} (floor : Level),
      List.Forall₂ (Frame.Alike same) stack others → e.Alike (.ofTokens same) f →
      Reading.Alike same (Expr.Alike (.ofTokens same)) (readAfter floor stack e xs)
        (readAfter floor others f ys)) := by
  induction tokens with
  | nil =>
    constructor
    · intro stack others floor _
      rw [readOperand, readOperand]
      exact .error ⟨rfl, .nil⟩
    · intro stack others e f floor frames value
      have settled := settle_alike frames .equality value
      rw [readAfter, readAfter]
      generalize Frame.settle .equality e stack = a at settled ⊢
      generalize Frame.settle .equality f others = b at settled ⊢
      cases settled with
      | whole value => exact .ok ⟨value, .nil⟩
      | part => exact .error ⟨rfl, .nil⟩
  | @cons s t xs ys first later ih =>
    obtain ⟨operand, after⟩ := ih
    constructor
    · intro stack others floor frames
      have opening := opening_alike kinds first
      rw [readOperand, readOperand]
      generalize s.opening? = a at opening ⊢
      generalize t.opening? = b at opening ⊢
      cases opening with
      | none => exact .error ⟨rfl, .cons first later⟩
      | some opening =>
        cases opening with
        | sign => exact operand floor (.cons (.sign first) frames)
        | paren => exact operand floor (.cons .group frames)
        | atom value => exact after floor frames value
    · intro stack others e f floor frames value
      rw [readAfter, readAfter, ← level_alike kinds first]
      cases s.level? with
      | some level =>
        have settled := settle_alike frames level value
        dsimp only
        generalize Frame.settle level e stack = a at settled ⊢
        generalize Frame.settle level f others = b at settled ⊢
        cases settled with
        | whole value =>
          dsimp only
          split
          · exact .ok ⟨value, .cons first later⟩
          · exact operand floor (.cons (.left value first level) .nil)
        | part value inner outer =>
          exact operand floor (.cons (.left value first level) (.cons inner outer))
      | none =>
        have settled := settle_alike frames .equality value
        dsimp only
        rw [← is_mark_alike kinds first]
        generalize Frame.settle .equality e stack = a at settled ⊢
        generalize Frame.settle .equality f others = b at settled ⊢
        cases settled with
        | whole value => exact .ok ⟨value, .cons first later⟩
        | part value inner outer =>
          dsimp only
          split
          · exact after floor outer (.group value)
          · exact .error ⟨rfl, .cons first later⟩

end Expr

namespace Stmt

theorem close_alike (expected : Expectation) {stmt other : Stmt}
    (whole : stmt.Alike (.ofTokens same) other) {xs ys : List Token}
    (tokens : List.Forall₂ same xs ys) :
    Reading.Alike same (Stmt.Alike (.ofTokens same)) (close expected stmt xs)
      (close expected other ys) := by
  cases tokens with
  | nil => exact .error ⟨rfl, .nil⟩
  | cons first later =>
    rw [close, close, ← is_mark_alike kinds first]
    split
    · exact .ok ⟨whole, later⟩
    · exact .error ⟨rfl, .cons first later⟩

theorem read_closed_alike (expected : Expectation) {build build' : Expr → Stmt}
    (builds : ∀ {e f : Expr}, e.Alike (.ofTokens same) f → (build e).Alike (.ofTokens same) (build' f))
    {xs ys : List Token} (tokens : List.Forall₂ same xs ys) :
    Reading.Alike same (Stmt.Alike (.ofTokens same)) (readClosed expected build xs)
      (readClosed expected build' ys) :=
  and_then_alike ((Expr.read_alike kinds tokens).1 .equality .nil) fun value tokens =>
    close_alike kinds expected (builds value) tokens

theorem read_initial_alike {xs ys : List Token} (tokens : List.Forall₂ same xs ys) :
    Reading.Alike same (Option.Rel (Expr.Alike (.ofTokens same))) (readInitial xs) (readInitial ys) := by
  cases tokens with
  | nil => exact .ok ⟨.none, .nil⟩
  | cons first later =>
    rw [readInitial, readInitial, ← is_mark_alike kinds first]
    split
    · exact and_then_alike ((Expr.read_alike kinds later).1 .equality .nil) fun value tokens =>
        .ok ⟨.some value, tokens⟩
    · exact .ok ⟨.none, .cons first later⟩

theorem read_var_alike {xs ys : List Token} (tokens : List.Forall₂ same xs ys) :
    Reading.Alike same (Stmt.Alike (.ofTokens same)) (readVar xs) (readVar ys) := by
  cases tokens with
  | nil => exact .error ⟨rfl, .nil⟩
  | cons first later =>
    rw [readVar, readVar, ← is_name_alike kinds first]
    split
    · exact and_then_alike (read_initial_alike kinds later) fun initial tokens =>
        close_alike kinds .declarationEnd (.var first initial) tokens
    · exact .error ⟨rfl, .cons first later⟩

theorem read_kinds_alike {xs ys : List Token} (tokens : List.Forall₂ same xs ys) :
    Reading.Alike same (Stmt.Alike (.ofTokens same)) (read xs) (read ys) := by
  cases tokens with
  | nil => exact read_closed_alike kinds .expressionEnd .expression .nil
  | cons first later =>
    rw [read, read, ← is_keyword_alike kinds first, ← is_keyword_alike kinds first]
    split
    · exact read_var_alike kinds later
    · split
      · exact read_closed_alike kinds .valueEnd .print later
      · exact read_closed_alike kinds .expressionEnd .expression (.cons first later)

end Stmt

inductive Diagnostic.Alike (same : Token → Token → Prop) : Diagnostic → Diagnostic → Prop where
  | parse {s t : Token} (place : same s t) (message : String) :
      Alike same (.parseAt s message) (.parseAt t message)
  | runtime {s t : Token} (place : same s t) (message : String) :
      Alike same (.runtimeAt s message) (.runtimeAt t message)

namespace Program

theorem resume_alike {xs ys : List Token} (tokens : List.Forall₂ same xs ys) :
    List.Forall₂ same (resume xs) (resume ys) := by
  induction tokens with
  | nil => exact .nil
  | @cons s t xs ys first later ih =>
    have next : xs.head?.any Token.startsStatement = ys.head?.any Token.startsStatement := by
      cases later with
      | nil => rfl
      | cons next _ => exact starts_statement_alike kinds next
    rw [resume, resume, ← is_mark_alike kinds first, ← next]
    split
    · exact later
    · exact ih

theorem attempts_alike {xs ys : List Token} (tokens : List.Forall₂ same xs ys) :
    List.Forall₂ (Agree (Failure.Alike same) (Stmt.Alike (.ofTokens same))) (attempts xs)
      (attempts ys) := by
  generalize size : xs.length = bound
  induction bound using Nat.strongRecOn generalizing xs ys with
  | ind bound ih =>
    by_cases none : xs = []
    · subst none
      cases tokens
      rw [attempts_nil]
      exact .nil
    · have some : ys ≠ [] := by
        intro empty
        rw [empty] at tokens
        cases tokens
        exact none rfl
      have shorter := leftover_shorter none
      have read := Stmt.read_kinds_alike kinds tokens
      rw [leftover] at shorter
      generalize left : Stmt.read xs = a at read shorter
      generalize right : Stmt.read ys = b at read
      cases read with
      | ok found =>
        rw [attempts_ok left, attempts_ok right]
        exact .cons (.ok found.1) (ih _ (size ▸ shorter) found.2 rfl)
      | error failed =>
        rw [attempts_error none left, attempts_error some right]
        exact .cons (.error failed) (ih _ (size ▸ shorter) (resume_alike kinds failed.rest) rfl)

theorem body_alike {xs ys : List Token} (tokens : List.Forall₂ same xs ys) :
    List.Forall₂ same (body xs) (body ys) := by
  induction tokens with
  | nil => exact .nil
  | @cons s t xs ys first _ ih =>
    rw [body, body, List.takeWhile_cons, List.takeWhile_cons, ← is_end_alike kinds first]
    split
    · exact .cons first ih
    · exact .nil

theorem find_end_alike {xs ys : List Token} (tokens : List.Forall₂ same xs ys) :
    Option.Rel same (xs.find? Token.isEnd) (ys.find? Token.isEnd) := by
  induction tokens with
  | nil => exact .none
  | @cons s t xs ys first _ ih =>
    rw [List.find?_cons, List.find?_cons, ← is_end_alike kinds first]
    split
    · exact .some first
    · exact ih

end Program

end

namespace Program

theorem stmt_alike {same : Token → Token → Prop} {a b : Except Failure Stmt}
    (attempt : Agree (Failure.Alike same) (Stmt.Alike (.ofTokens same)) a b) :
    Option.Rel (Stmt.Alike (.ofTokens same)) (stmt? a) (stmt? b) := by
  cases attempt with
  | ok whole => exact .some whole
  | error => exact .none

theorem misfit_alike {same : Token → Token → Prop} {last other : Token} (ends : same last other)
    {a b : Failure} (failed : a.Alike same b) : same (a.rest.headD last) (b.rest.headD other) := by
  obtain ⟨_, rest⟩ := failed
  generalize a.rest = xs at rest ⊢
  generalize b.rest = ys at rest ⊢
  cases rest with
  | nil => exact ends
  | cons first _ => exact first

theorem diagnostic_alike {same : Token → Token → Prop} {last other : Token} (ends : same last other)
    {a b : Except Failure Stmt}
    (attempt : Agree (Failure.Alike same) (Stmt.Alike (.ofTokens same)) a b) :
    Option.Rel (Diagnostic.Alike same) (diagnostic? last a) (diagnostic? other b) := by
  cases attempt with
  | ok => exact .none
  | error failed =>
    rw [diagnostic?, diagnostic?, failed.expected]
    exact .some (.parse (misfit_alike ends failed) _)

theorem read_kinds_alike {same : Token → Token → Prop} (kinds : ∀ s t, same s t → s.kind = t.kind)
    {xs ys : List Token} (tokens : List.Forall₂ same xs ys) :
    List.Forall₂ (Stmt.Alike (.ofTokens same)) (read xs).statements (read ys).statements ∧
      List.Forall₂ (Diagnostic.Alike same) (read xs).errors (read ys).errors := by
  have ends := find_end_alike kinds tokens
  have tried := attempts_alike kinds (body_alike kinds tokens)
  generalize left : xs.find? Token.isEnd = a at ends
  generalize right : ys.find? Token.isEnd = b at ends
  cases ends with
  | none =>
    rw [read, read, left, right]
    exact ⟨.nil, .nil⟩
  | some last =>
    rw [read_ended left, read_ended right]
    exact ⟨List.rel_filterMap (fun _ _ attempt => stmt_alike attempt) tried,
      List.rel_filterMap (fun _ _ attempt => diagnostic_alike last attempt) tried⟩

end Program
end Lox
