import Lox.Proofs.Course
import Lox.Proofs.Yield

set_option autoImplicit false

namespace Lox

inductive Around where
  | here
  | group (inner : Around)
  | unary (operator : Token) (operand : Around)
  | onLeft (operand : Around) (operator : Token) (right : Expr)
  | onRight (left : Expr) (operator : Token) (operand : Around)

namespace Around

def fill (part : Expr) : Around → Expr
  | .here => part
  | .group inner => .group (inner.fill part)
  | .unary operator operand => .unary operator (operand.fill part)
  | .onLeft operand operator right => .binary (operand.fill part) operator right
  | .onRight left operator operand => .binary left operator (operand.fill part)

def before : Around → List Leaf
  | .here => []
  | .group inner => .known (.mark .leftParen) :: inner.before
  | .unary operator operand => .kept operator :: operand.before
  | .onLeft operand _ _ => operand.before
  | .onRight left operator operand => left.leaves ++ .kept operator :: operand.before

def after : Around → List Leaf
  | .here => []
  | .group inner => inner.after ++ [.known (.mark .rightParen)]
  | .unary _ operand => operand.after
  | .onLeft operand operator right => operand.after ++ .kept operator :: right.leaves
  | .onRight _ _ operand => operand.after

theorem leaves_fill (part : Expr) (around : Around) :
    (around.fill part).leaves = around.before ++ (part.leaves ++ around.after) := by
  induction around with
  | here => simp [fill, before, after]
  | group inner ih => simp [fill, Expr.leaves, before, after, ih]
  | unary operator operand ih => simp [fill, Expr.leaves, before, after, ih]
  | onLeft operand operator right ih => simp [fill, Expr.leaves, before, after, ih]
  | onRight left operator operand ih => simp [fill, Expr.leaves, before, after, ih]

theorem fits_group {part : Expr} (around : Around) : ∀ {level : Level},
    (around.fill part).Fits level → (around.fill (.group part)).Fits level ∧ part.Fits .equality := by
  induction around with
  | here =>
    intro level fits
    have inner := Expr.fits_loosen (a := .equality) (Nat.zero_le _) fits
    exact ⟨inner, inner⟩
  | group inner ih => exact fun fits => ih fits
  | unary operator operand ih =>
    intro level fits
    obtain ⟨whole, inner⟩ := ih fits.2
    exact ⟨⟨fits.1, whole⟩, inner⟩
  | onLeft operand operator right ih =>
    intro level fits
    obtain ⟨own, loose, joins, left, rest⟩ := fits
    obtain ⟨whole, inner⟩ := ih left
    exact ⟨⟨own, loose, joins, whole, rest⟩, inner⟩
  | onRight left operator operand ih =>
    intro level fits
    obtain ⟨own, loose, joins, first, right⟩ := fits
    obtain ⟨whole, inner⟩ := ih right
    exact ⟨⟨own, loose, joins, first, whole⟩, inner⟩

theorem eval_group (env : Env) (part : Expr) (around : Around) :
    (around.fill (.group part)).eval env = (around.fill part).eval env := by
  induction around with
  | here => rfl
  | group inner ih => exact ih
  | unary operator operand ih => simp only [fill, Expr.eval, ih]
  | onLeft operand operator right ih => simp only [fill, Expr.eval, ih]
  | onRight left operator operand ih => simp only [fill, Expr.eval, ih]

end Around

inductive Role where
  | expression
  | print
  | initial (name : Token)

namespace Role

def stmt : Role → Expr → Stmt
  | .expression, value => .expression value
  | .print, value => .print value
  | .initial name, value => .var name (some value)

def before : Role → List Leaf
  | .expression => []
  | .print => [.known (.keyword .print)]
  | .initial name => [.known (.keyword .var), .kept name, .known (.mark .equal)]

theorem leaves_stmt (role : Role) (value : Expr) :
    (role.stmt value).leaves = role.before ++ (value.leaves ++ [.known (.mark .semicolon)]) := by
  cases role <;> rfl

theorem effect_eq (role : Role) {env : Env} {value other : Expr}
    (same : value.eval env = other.eval env) :
    (role.stmt value).effect env = (role.stmt other).effect env := by
  cases role <;> simp only [stmt, Stmt.effect, same]

theorem shaped_group {role : Role} {around : Around} {part : Expr}
    (shaped : (role.stmt (around.fill part)).WellShaped) :
    (role.stmt (around.fill (.group part))).WellShaped ∧ part.Fits .equality := by
  cases role with
  | initial name =>
    obtain ⟨whole, inner⟩ := around.fits_group shaped.2
    exact ⟨⟨shaped.1, whole⟩, inner⟩
  | _ => exact around.fits_group shaped

end Role

structure Place where
  front : List Stmt
  role : Role
  around : Around
  back : List Stmt

namespace Place

def fill (place : Place) (part : Expr) : List Stmt :=
  place.front ++ place.role.stmt (place.around.fill part) :: place.back

def before (place : Place) : List Leaf :=
  place.front.flatMap Stmt.leaves ++ place.role.before ++ place.around.before

def after (place : Place) : List Leaf :=
  place.around.after ++ .known (.mark .semicolon) :: place.back.flatMap Stmt.leaves

-- Each leaf is one token, so a part is read of as many tokens as it has leaves.
def start (place : Place) : Nat := place.before.length
def stop (place : Place) (part : Expr) : Nat := place.start + part.leaves.length

theorem leaves_fill (place : Place) (part : Expr) :
    (place.fill part).flatMap Stmt.leaves = place.before ++ (part.leaves ++ place.after) := by
  simp [fill, before, after, Role.leaves_stmt, Around.leaves_fill]

theorem course_group (place : Place) (part : Expr) (env : Env) :
    env.course (place.fill (.group part)) = env.course (place.fill part) := by
  have same (env : Env) := place.role.effect_eq (place.around.eval_group env part)
  rw [fill, fill, Env.course_append, Env.course_append, Env.course, Env.course, same]

end Place

def enclose (opening closing : Token) (start stop : Nat) (tokens : List Token) : List Token :=
  tokens.take start ++ opening :: (tokens.extract start stop ++ closing :: tokens.drop stop)

theorem enclose_append {opening closing : Token} (before span after : List Token) :
    enclose opening closing before.length (before.length + span.length) (before ++ (span ++ after)) =
      before ++ opening :: (span ++ closing :: after) := by
  rw [enclose, List.take_left, List.extract_eq_take_drop, List.drop_left, Nat.add_sub_cancel_left,
    List.take_left, ← List.append_assoc before, ← List.length_append, List.drop_left]

theorem extract_append (before span after : List Token) :
    (before ++ (span ++ after)).extract before.length (before.length + span.length) = span := by
  rw [List.extract_eq_take_drop, List.drop_left, Nat.add_sub_cancel_left, List.take_left]

namespace Program

theorem read_some_ended {tokens : List Token} {stmts : List Stmt} (some : stmts ≠ [])
    (accepted : read tokens = ⟨stmts, []⟩) : ∃ token ∈ tokens, token.isEnd = true := by
  cases found : tokens.find? Token.isEnd with
  | none =>
    rw [read, found] at accepted
    cases accepted
    exact absurd rfl some
  | some last => exact ⟨last, List.mem_of_find?_eq_some found, List.find?_some found⟩

theorem shaped_place {place : Place} {part : Expr}
    (shaped : ∀ stmt ∈ place.fill part, stmt.WellShaped) :
    (∀ stmt ∈ place.fill (.group part), stmt.WellShaped) ∧ part.Fits .equality := by
  rw [Place.fill, List.forall_mem_append, List.forall_mem_cons] at shaped
  obtain ⟨front, here, back⟩ := shaped
  obtain ⟨whole, inner⟩ := Role.shaped_group here
  rw [Place.fill, List.forall_mem_append, List.forall_mem_cons]
  exact ⟨⟨front, whole, back⟩, inner⟩

theorem span_of_place {tokens : List Token} {place : Place} {part : Expr}
    (yields : Yields (place.fill part) tokens) :
    ∃ before span after, tokens = before ++ (span ++ after) ∧
      place.start = before.length ∧ place.stop part = before.length + span.length ∧
      List.Forall₂ Leaf.Stands place.before before ∧ List.Forall₂ Leaf.Stands part.leaves span ∧
      List.Forall₂ Leaf.Stands place.after after := by
  rw [Yields, Place.leaves_fill, stands_append_iff] at yields
  obtain ⟨before, behind, rfl, first, rest⟩ := yields
  obtain ⟨span, after, rfl, inner, last⟩ := stands_append_iff.mp rest
  refine ⟨before, span, after, rfl, first.length_eq, ?_, first, inner, last⟩
  rw [Place.stop, Place.start, first.length_eq, inner.length_eq]

theorem read_part {part : Expr} {span : List Token} (fits : part.Fits .equality)
    (stands : List.Forall₂ Leaf.Stands part.leaves span) : Expr.read span = .ok (part, []) := by
  have read := Expr.read_from_derived (yields_derives fits stands) Level.equality.ends_nil
  rwa [List.append_nil] at read

theorem yields_group {place : Place} {part : Expr} {before span after : List Token}
    {opening closing : Token} (opens : opening.kind = .mark .leftParen)
    (closes : closing.kind = .mark .rightParen) (first : List.Forall₂ Leaf.Stands place.before before)
    (inner : List.Forall₂ Leaf.Stands part.leaves span)
    (later : List.Forall₂ Leaf.Stands place.after after) :
    Yields (place.fill (.group part)) (before ++ opening :: (span ++ closing :: after)) := by
  rw [Yields, Place.leaves_fill, Expr.leaves, List.cons_append, List.append_assoc]
  exact List.rel_append first (.cons opens (List.rel_append inner (.cons closes later)))

theorem parenthesized_alike {tokens : List Token} {place : Place} {part : Expr}
    (accepted : read tokens = ⟨place.fill part, []⟩) {opening closing : Token}
    (opens : opening.kind = .mark .leftParen) (closes : closing.kind = .mark .rightParen) :
    Expr.read (tokens.extract place.start (place.stop part)) = .ok (part, []) ∧
      read (enclose opening closing place.start (place.stop part) tokens) =
        ⟨place.fill (.group part), []⟩ ∧
      ∀ machine : Machine,
        machine.interpret (place.fill (.group part)) = machine.interpret (place.fill part) := by
  have ended := read_some_ended (by simp [Place.fill]) accepted
  obtain ⟨last, rest, whole, ends, _⟩ := body_ended ended
  obtain ⟨shaped, yields⟩ := (read_yields_iff ended _).mp accepted
  obtain ⟨grouped, fits⟩ := shaped_place shaped
  obtain ⟨before, span, after, split, start, stop, first, inner, later⟩ := span_of_place yields
  have tokens_eq : tokens = before ++ (span ++ (after ++ last :: rest)) := by
    rw [whole, split]
    simp
  have enclosed : enclose opening closing place.start (place.stop part) tokens =
      (before ++ opening :: (span ++ closing :: after)) ++ last :: rest := by
    rw [start, stop, tokens_eq, enclose_append]
    simp
  have yields' := yields_group opens closes first inner later
  refine ⟨?_, ?_, ?_⟩
  · rw [start, stop, tokens_eq, extract_append]
    exact read_part fits inner
  · rw [enclosed, read_yields_iff ⟨last, by simp, ends⟩,
      body_append (yields_no_end grouped yields') ends]
    exact ⟨grouped, yields'⟩
  · intro machine
    rw [Machine.interpret_course, Machine.interpret_course, place.course_group]

def sumPlace : Place where
  front := [.var ⟨.identifier, "a", 1⟩ none]
  role := .print
  around := .onLeft .here ⟨.mark .plus, "+", 2⟩ (.name ⟨.identifier, "c", 2⟩)
  back := []

def innerSum : Expr :=
  .binary (.name ⟨.identifier, "a", 2⟩) ⟨.mark .plus, "+", 2⟩ (.unary ⟨.mark .minus, "-", 2⟩ (.literal .nil))

def sumTokens : List Token := (scan "var a;\nprint a + -nil + c;").tokens

theorem parenthesized_alike_sum :
    read sumTokens = ⟨sumPlace.fill innerSum, []⟩ ∧
    Expr.read (sumTokens.extract sumPlace.start (sumPlace.stop innerSum)) = .ok (innerSum, []) ∧
    read (enclose ⟨.mark .leftParen, "(", 2⟩ ⟨.mark .rightParen, ")", 2⟩ sumPlace.start
      (sumPlace.stop innerSum) sumTokens) = ⟨sumPlace.fill (.group innerSum), []⟩ ∧
    ∀ machine : Machine,
      machine.interpret (sumPlace.fill (.group innerSum)) = machine.interpret (sumPlace.fill innerSum) := by
  have accepted : read sumTokens = ⟨sumPlace.fill innerSum, []⟩ := by with_unfolding_all rfl
  exact ⟨accepted, parenthesized_alike accepted rfl rfl⟩

end Program
end Lox
