import Lox.Proofs.Attempts
import Mathlib.Data.List.Forall2

set_option autoImplicit false

namespace Lox

def Expr.Fits : Expr → Level → Prop
  | .literal _, _ => True
  | .name token, _ => token.kind = .identifier
  | .group inner, _ => inner.Fits .equality
  | .unary operator operand, _ => operator.Signs ∧ operand.Fits .unary
  | .binary left operator right, level =>
    ∃ own : Level, level.rank ≤ own.rank ∧ operator.Joins own ∧ left.Fits own ∧ right.Fits own.tighter

def Stmt.WellShaped : Stmt → Prop
  | .expression value => value.Fits .equality
  | .print value => value.Fits .equality
  | .var name none => name.kind = .identifier
  | .var name (some value) => name.kind = .identifier ∧ value.Fits .equality

-- A tree keeps its names and operators; of its other tokens it keeps the kind only.
inductive Leaf where
  | kept (token : Token)
  | known (kind : TokenKind)

def Leaf.Stands : Leaf → Token → Prop
  | .kept token, found => found = token
  | .known kind, found => found.kind = kind

def Expr.leaves : Expr → List Leaf
  | .literal value => [.known value.kind]
  | .name token => [.kept token]
  | .group inner => .known (.mark .leftParen) :: (inner.leaves ++ [.known (.mark .rightParen)])
  | .unary operator operand => .kept operator :: operand.leaves
  | .binary left operator right => left.leaves ++ .kept operator :: right.leaves

def Stmt.leaves : Stmt → List Leaf
  | .expression value => value.leaves ++ [.known (.mark .semicolon)]
  | .print value => .known (.keyword .print) :: (value.leaves ++ [.known (.mark .semicolon)])
  | .var name none => [.known (.keyword .var), .kept name, .known (.mark .semicolon)]
  | .var name (some value) =>
    .known (.keyword .var) :: .kept name :: .known (.mark .equal) ::
      (value.leaves ++ [.known (.mark .semicolon)])

def TokenKind.spelling : TokenKind → String
  | .mark m => m.spelling
  | .keyword w => w.spelling
  | .string text => "\"" ++ text ++ "\""
  | .number x => Number.text "inf" x
  | .identifier | .eof => ""

def Leaf.token : Leaf → Token
  | .kept token => token
  | .known kind => ⟨kind, kind.spelling, 1⟩

def yield (stmts : List Stmt) : List Token := (stmts.flatMap Stmt.leaves).map Leaf.token

def Yields (stmts : List Stmt) (tokens : List Token) : Prop :=
  List.Forall₂ Leaf.Stands (stmts.flatMap Stmt.leaves) tokens

theorem stands_append_iff {a b : List Leaf} {tokens : List Token} :
    List.Forall₂ Leaf.Stands (a ++ b) tokens ↔
      ∃ front back, tokens = front ++ back ∧ List.Forall₂ Leaf.Stands a front ∧
        List.Forall₂ Leaf.Stands b back := by
  apply Iff.intro
  · intro stands
    induction a generalizing tokens with
    | nil => exact ⟨[], tokens, rfl, .nil, stands⟩
    | cons leaf rest ih =>
      cases stands with
      | @cons _ token _ later here stands =>
        obtain ⟨front, back, rfl, first, second⟩ := ih stands
        exact ⟨token :: front, back, rfl, .cons here first, second⟩
  · intro parts
    obtain ⟨front, back, rfl, first, second⟩ := parts
    exact List.rel_append first second

theorem stands_last_iff {leaves : List Leaf} {kind : TokenKind} {tokens : List Token} :
    List.Forall₂ Leaf.Stands (leaves ++ [.known kind]) tokens ↔
      ∃ front token, tokens = front ++ [token] ∧ List.Forall₂ Leaf.Stands leaves front ∧
        token.kind = kind := by
  rw [stands_append_iff]
  apply Iff.intro
  · intro parts
    obtain ⟨front, back, rfl, first, last⟩ := parts
    obtain ⟨token, rest, here, empty, rfl⟩ := List.forall₂_cons_left_iff.mp last
    cases empty
    exact ⟨front, token, rfl, first, here⟩
  · intro parts
    obtain ⟨front, token, rfl, first, here⟩ := parts
    exact ⟨front, [token], rfl, first, .cons here .nil⟩

namespace Expr

theorem fits_loosen {value : Expr} {a b : Level} (loose : a.rank ≤ b.rank) (fits : value.Fits b) :
    value.Fits a := by
  cases value with
  | binary left operator right =>
    obtain ⟨own, above, rest⟩ := fits
    exact ⟨own, Nat.le_trans loose above, rest⟩
  | _ => exact fits

end Expr

theorem derives_yields {level : Level} {tokens : List Token} {value : Expr}
    (derived : Derives level tokens value) :
    value.Fits level ∧ List.Forall₂ Leaf.Stands value.leaves tokens := by
  induction derived with
  | literal kind => exact ⟨trivial, .cons kind .nil⟩
  | name kind => exact ⟨kind, .cons rfl .nil⟩
  | group opens _ closes ih =>
    exact ⟨ih.1, .cons opens (stands_last_iff.mpr ⟨_, _, rfl, ih.2, closes⟩)⟩
  | sign signs _ ih => exact ⟨⟨signs, ih.1⟩, .cons rfl ih.2⟩
  | operand _ ih => exact ⟨Expr.fits_loosen (Level.tighter_rank _) ih.1, ih.2⟩
  | chain _ joins _ ihLeft ihRight =>
    refine ⟨⟨_, Nat.le_refl _, joins, ihLeft.1, ihRight.1⟩, ?_⟩
    exact List.rel_append ihLeft.2 (.cons rfl ihRight.2)

theorem yields_derives {value : Expr} : ∀ {level : Level} {tokens : List Token},
    value.Fits level → List.Forall₂ Leaf.Stands value.leaves tokens → Derives level tokens value := by
  have loosest (level : Level) : level.rank ≤ Level.unary.rank := by cases level <;> decide
  induction value with
  | literal value =>
    intro level tokens _ stands
    obtain ⟨token, rest, kind, empty, rfl⟩ := List.forall₂_cons_left_iff.mp stands
    cases empty
    exact derives_loosen (loosest level) (.literal kind)
  | name token =>
    intro level tokens fits stands
    obtain ⟨found, rest, rfl, empty, rfl⟩ := List.forall₂_cons_left_iff.mp stands
    cases empty
    exact derives_loosen (loosest level) (.name fits)
  | group inner ih =>
    intro level tokens fits stands
    obtain ⟨opening, rest, opens, behind, rfl⟩ := List.forall₂_cons_left_iff.mp stands
    obtain ⟨front, closing, rfl, inside, closes⟩ := stands_last_iff.mp behind
    exact derives_loosen (loosest level) (.group opens (ih fits inside) closes)
  | unary operator operand ih =>
    intro level tokens fits stands
    obtain ⟨found, rest, rfl, behind, rfl⟩ := List.forall₂_cons_left_iff.mp stands
    exact derives_loosen (loosest level) (.sign fits.1 (ih fits.2 behind))
  | binary left operator right ihLeft ihRight =>
    intro level tokens fits stands
    obtain ⟨own, loose, joins, fitsLeft, fitsRight⟩ := fits
    obtain ⟨front, back, rfl, standsLeft, behind⟩ := stands_append_iff.mp stands
    obtain ⟨found, rest, rfl, standsRight, rfl⟩ := List.forall₂_cons_left_iff.mp behind
    exact derives_loosen loose (.chain (ihLeft fitsLeft standsLeft) joins (ihRight fitsRight standsRight))

theorem declares_iff {tokens : List Token} {stmt : Stmt} :
    Declares tokens stmt ↔ stmt.WellShaped ∧ List.Forall₂ Leaf.Stands stmt.leaves tokens := by
  apply Iff.intro
  · intro declared
    cases declared with
    | bare var named ends => exact ⟨named, .cons var (.cons rfl (.cons ends .nil))⟩
    | initialized var named equals initial ends =>
      obtain ⟨fits, stands⟩ := derives_yields initial
      exact ⟨⟨named, fits⟩,
        .cons var (.cons rfl (.cons equals (stands_last_iff.mpr ⟨_, _, rfl, stands, ends⟩)))⟩
    | print prints inner ends =>
      obtain ⟨fits, stands⟩ := derives_yields inner
      exact ⟨fits, .cons prints (stands_last_iff.mpr ⟨_, _, rfl, stands, ends⟩)⟩
    | expression inner ends =>
      obtain ⟨fits, stands⟩ := derives_yields inner
      exact ⟨fits, stands_last_iff.mpr ⟨_, _, rfl, stands, ends⟩⟩
  · intro written
    obtain ⟨shaped, stands⟩ := written
    cases stmt with
    | expression value =>
      obtain ⟨front, semicolon, rfl, inside, ends⟩ := stands_last_iff.mp stands
      exact .expression (yields_derives shaped inside) ends
    | print value =>
      obtain ⟨word, rest, prints, behind, rfl⟩ := List.forall₂_cons_left_iff.mp stands
      obtain ⟨front, semicolon, rfl, inside, ends⟩ := stands_last_iff.mp behind
      exact .print prints (yields_derives shaped inside) ends
    | var name initial =>
      cases initial with
      | none =>
        obtain ⟨word, rest, var, behind, rfl⟩ := List.forall₂_cons_left_iff.mp stands
        obtain ⟨found, tail, rfl, last, rfl⟩ := List.forall₂_cons_left_iff.mp behind
        obtain ⟨semicolon, more, ends, empty, rfl⟩ := List.forall₂_cons_left_iff.mp last
        cases empty
        exact .bare var shaped ends
      | some value =>
        obtain ⟨word, rest, var, behind, rfl⟩ := List.forall₂_cons_left_iff.mp stands
        obtain ⟨found, tail, rfl, initial, rfl⟩ := List.forall₂_cons_left_iff.mp behind
        obtain ⟨equal, more, equals, closed, rfl⟩ := List.forall₂_cons_left_iff.mp initial
        obtain ⟨front, semicolon, rfl, inside, ends⟩ := stands_last_iff.mp closed
        exact .initialized var shaped.1 equals (yields_derives shaped.2 inside) ends

namespace Program

theorem all_accepted_iff (last : Token) {tried : List (Except Failure Stmt)} {stmts : List Stmt} :
    tried.filterMap stmt? = stmts ∧ tried.filterMap (diagnostic? last) = [] ↔
      tried = stmts.map .ok := by
  apply Iff.intro
  · intro run
    obtain ⟨rfl, none⟩ := run
    induction tried with
    | nil => rfl
    | cons first rest ih =>
      cases first with
      | ok stmt => exact congrArg (List.cons _) (ih none)
      | error failure => cases none
  · intro run
    rw [run]
    clear run
    induction stmts with
    | nil => exact ⟨rfl, rfl⟩
    | cons stmt rest ih => exact ⟨congrArg (List.cons stmt) ih.1, ih.2⟩

theorem attempts_yields_iff {stmts : List Stmt} : ∀ {tokens : List Token},
    attempts tokens = stmts.map .ok ↔ (∀ stmt ∈ stmts, stmt.WellShaped) ∧ Yields stmts tokens := by
  induction stmts with
  | nil =>
    intro tokens
    apply Iff.intro
    · intro none
      by_cases empty : tokens = []
      · exact ⟨by simp, empty ▸ .nil⟩
      · rw [attempts_some empty] at none
        cases none
    · intro written
      obtain ⟨_, yields⟩ := written
      cases yields
      exact attempts_nil
  | cons stmt rest ih =>
    intro tokens
    rw [Yields, List.flatMap_cons, stands_append_iff, List.forall_mem_cons, List.map_cons]
    apply Iff.intro
    · intro run
      obtain ⟨used, later, rfl, declared, run⟩ := attempts_cons run
      obtain ⟨shaped, stands⟩ := declares_iff.mp declared
      obtain ⟨others, yields⟩ := ih.mp run
      exact ⟨⟨shaped, others⟩, used, later, rfl, stands, yields⟩
    · intro written
      obtain ⟨⟨shaped, others⟩, front, back, rfl, stands, yields⟩ := written
      rw [attempts_ok (Stmt.read_declared (declares_iff.mpr ⟨shaped, stands⟩) back),
        ih.mpr ⟨others, yields⟩]

theorem read_yields_iff {tokens : List Token} (ended : ∃ token ∈ tokens, token.isEnd = true)
    (stmts : List Stmt) :
    read tokens = ⟨stmts, []⟩ ↔ (∀ stmt ∈ stmts, stmt.WellShaped) ∧ Yields stmts (body tokens) := by
  obtain ⟨last, after, whole, _, found⟩ := body_ended ended
  rw [← attempts_yields_iff, ← all_accepted_iff last, read_ended found, Program.mk.injEq]

theorem yields_yield (stmts : List Stmt) : Yields stmts (yield stmts) := by
  rw [Yields, yield, List.forall₂_map_right_iff, List.forall₂_same]
  intro leaf _
  cases leaf <;> rfl

theorem yields_no_end {stmts : List Stmt} : ∀ {tokens : List Token},
    (∀ stmt ∈ stmts, stmt.WellShaped) → Yields stmts tokens →
      ∀ token ∈ tokens, token.kind ≠ .eof := by
  induction stmts with
  | nil =>
    intro tokens _ yields
    cases yields
    simp
  | cons stmt rest ih =>
    intro tokens shaped yields
    rw [Yields, List.flatMap_cons, stands_append_iff] at yields
    obtain ⟨front, back, rfl, stands, yields⟩ := yields
    obtain ⟨here, later⟩ := List.forall_mem_cons.mp shaped
    rw [List.forall_mem_append]
    exact ⟨declares_no_end (declares_iff.mpr ⟨here, stands⟩), ih later yields⟩

theorem body_past {tokens : List Token} (inside : ∀ token ∈ tokens, token.kind ≠ .eof)
    (rest : List Token) : body (tokens ++ rest) = tokens ++ body rest := by
  apply List.takeWhile_append_of_pos
  intro token member
  have other : ¬ token.isEnd = true := fun ends => inside token member (Token.is_end_iff.mp ends)
  simpa using other

theorem body_append {tokens after : List Token} {last : Token}
    (inside : ∀ token ∈ tokens, token.kind ≠ .eof) (ended : last.isEnd = true) :
    body (tokens ++ last :: after) = tokens := by
  have none : body (last :: after) = [] := List.takeWhile_cons_of_neg (by simp [ended])
  rw [body_past inside, none, List.append_nil]

theorem find_end_past {tokens : List Token} (inside : ∀ token ∈ tokens, token.kind ≠ .eof)
    (rest : List Token) : (tokens ++ rest).find? Token.isEnd = rest.find? Token.isEnd := by
  have none : tokens.find? Token.isEnd = none :=
    List.find?_eq_none.mpr fun token member ends => inside token member (Token.is_end_iff.mp ends)
  rw [List.find?_append, none, Option.none_or]

theorem read_declares {tokens : List Token} {stmt : Stmt} {last : Token}
    (declared : Declares tokens stmt) (ended : last.isEnd = true) :
    read (tokens ++ [last]) = ⟨[stmt], []⟩ := by
  obtain ⟨shaped, stands⟩ := declares_iff.mp declared
  rw [read_yields_iff ⟨last, by simp, ended⟩, body_append (declares_no_end declared) ended]
  exact ⟨by simpa using shaped, by simpa [Yields] using stands⟩

theorem read_exactly_grammar :
    (∀ stmts last, (∀ stmt ∈ stmts, stmt.WellShaped) → last.isEnd = true →
      read (yield stmts ++ [last]) = ⟨stmts, []⟩) ∧
    ∀ tokens stmts, (∃ token ∈ tokens, token.isEnd = true) →
      (read tokens = ⟨stmts, []⟩ ↔
        (∀ stmt ∈ stmts, stmt.WellShaped) ∧ Yields stmts (body tokens)) := by
  refine ⟨?_, fun tokens stmts ended => read_yields_iff ended stmts⟩
  intro stmts last shaped ended
  have yields := yields_yield stmts
  rw [read_yields_iff ⟨last, by simp, ended⟩, body_append (yields_no_end shaped yields) ended]
  exact ⟨shaped, yields⟩

def subtractions : List Stmt :=
  let minus : Token := ⟨.mark .minus, "-", 1⟩
  [.print (.binary (.binary (.literal .nil) minus (.unary minus (.literal .nil))) minus
    (.group (.literal .nil)))]

theorem subtractions_exactly :
    ((∀ stmt ∈ subtractions, stmt.WellShaped) ∧ (Token.atEnd 1).isEnd = true ∧
      read (yield subtractions ++ [.atEnd 1]) = ⟨subtractions, []⟩) ∧
    (∃ token ∈ yield subtractions ++ [.atEnd 1], token.isEnd = true) ∧
      Yields subtractions (body (yield subtractions ++ [.atEnd 1])) := by
  have joins : Token.Joins .term ⟨.mark .minus, "-", 1⟩ := ⟨.minus, by decide, rfl⟩
  have shaped : ∀ stmt ∈ subtractions, stmt.WellShaped := by
    rw [subtractions, List.forall_mem_singleton]
    exact ⟨.term, by decide, joins, ⟨.term, by decide, joins, trivial, .inr rfl, trivial⟩, trivial⟩
  have accepted := read_exactly_grammar.1 subtractions (.atEnd 1) shaped rfl
  have ended : ∃ token ∈ yield subtractions ++ [.atEnd 1], token.isEnd = true :=
    ⟨.atEnd 1, by simp, rfl⟩
  exact ⟨⟨shaped, rfl, accepted⟩, ended, ((read_exactly_grammar.2 _ _ ended).mp accepted).2⟩

end Program
end Lox
