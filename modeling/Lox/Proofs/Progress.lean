import Lox.Source
import Lox.Proofs.Descent
import Mathlib.Data.List.TakeWhile

set_option autoImplicit false

namespace Lox
namespace Cursor

section

variable {body : List Token} {last : Token} (after : List Token)
variable (inner : ∀ token ∈ body, token.isEnd = false) (ended : last.isEnd = true)
include inner ended

theorem close_follows (expected : Expectation) (stmt : Stmt) {rest : List Token} (inside : rest <:+ body) :
    Follows body last rest (close (body ++ last :: after) expected stmt)
      (Stmt.close expected stmt rest) := by
  have same : Stmt.close expected stmt rest =
      (demand (·.isMark .semicolon) expected rest).andThen fun _ rest => .ok (stmt, rest) := by
    cases rest with
    | nil => rfl
    | cons token tail =>
      rw [Stmt.close, demand]
      split <;> rfl
  rw [same]
  refine (expect_follows after inner (Token.is_mark_end ended _) expected inside).bind ?_
  intro _ later _ within
  exact Follows.done within stmt

variable {depth : Nat}

theorem initial_follows {rest : List Token} (inside : rest <:+ body)
    (deep : 6 * rest.length + 6 ≤ depth) :
    Follows body last rest (initial (body ++ last :: after) depth) (Stmt.readInitial rest) := by
  refine Follows.look after inside ?_
  cases rest with
  | nil =>
    rw [List.headD_nil, if_neg (by simp [Token.is_mark_end ended])]
    exact Follows.done inside none
  | cons token tail =>
    have within : tail <:+ body := (List.suffix_cons token tail).trans inside
    have stays : token.isEnd = false := inner token (inside.mem List.mem_cons_self)
    rw [List.length_cons] at deep
    rw [List.headD_cons, Stmt.readInitial]
    split
    · have value := (calls_follow inner ended after depth).chain .equality within (by omega)
      refine Follows.advance after inside stays (value.bind ?_)
      intro value later _ within
      exact Follows.done within (some value)
    · exact Follows.done inside none

theorem var_follows {rest : List Token} (inside : rest <:+ body)
    (deep : 6 * rest.length + 6 ≤ depth) :
    Follows body last rest (do
      let name ← expect (body ++ last :: after) Token.isName .variableName
      close (body ++ last :: after) .declarationEnd
        (.var name (← initial (body ++ last :: after) depth)))
      (Stmt.readVar rest) := by
  have same : Stmt.readVar rest = (demand Token.isName .variableName rest).andThen fun name rest =>
      (Stmt.readInitial rest).andThen fun initial => Stmt.close .declarationEnd (.var name initial) := by
    cases rest with
    | nil => rfl
    | cons token tail =>
      rw [Stmt.readVar, demand]
      split <;> rfl
  rw [same]
  refine (expect_follows after inner (Token.is_name_end ended) _ inside).bind ?_
  intro name later accepted within
  have shorter := demand_shorter accepted
  refine (initial_follows after inner ended within (by omega)).bind ?_
  intro value more _ within
  exact close_follows after inner ended _ _ within

theorem declaration_follows {rest : List Token} (inside : rest <:+ body)
    (deep : 6 * rest.length + 6 ≤ depth) :
    Follows body last rest (declaration (body ++ last :: after) depth) (Stmt.read rest) := by
  have closed (expected : Expectation) (make : Expr → Stmt) {tail : List Token} (within : tail <:+ body)
      (short : tail.length ≤ rest.length) : Follows body last tail (do
        close (body ++ last :: after) expected (make (← chain (body ++ last :: after) depth .equality)))
        ((Expr.read tail).andThen fun value => Stmt.close expected (make value)) := by
    refine ((calls_follow inner ended after depth).chain .equality within (by omega)).bind ?_
    intro value later _ within
    exact close_follows after inner ended expected _ within
  refine Follows.look after inside ?_
  cases rest with
  | nil =>
    rw [List.headD_nil, if_neg (by simp [Token.is_keyword_end ended])]
    refine Follows.look after inside ?_
    rw [List.headD_nil, if_neg (by simp [Token.is_keyword_end ended])]
    exact closed .expressionEnd .expression inside (Nat.le_refl _)
  | cons token tail =>
    have within : tail <:+ body := (List.suffix_cons token tail).trans inside
    have stays : token.isEnd = false := inner token (inside.mem List.mem_cons_self)
    have less : tail.length ≤ (token :: tail).length := Nat.le_succ _
    rw [List.headD_cons, Stmt.read]
    split
    · exact Follows.advance after inside stays (var_follows after inner ended within (by omega))
    · refine Follows.look after inside ?_
      rw [List.headD_cons]
      split
      · exact Follows.advance after inside stays (closed .valueEnd .print within less)
      · exact closed .expressionEnd .expression inside (Nat.le_refl _)

theorem skip_follows {rest : List Token} : ∀ {depth : Nat} {token : Token}, token :: rest <:+ body →
    rest.length + 1 ≤ depth → (skip (body ++ last :: after) depth).run (place body rest) =
      some ((), place body (Program.resume (token :: rest))) := by
  induction rest with
  | nil =>
    intro depth token inside deep
    obtain ⟨depth, rfl⟩ : ∃ less, depth = less + 1 := Nat.exists_eq_add_of_le' deep
    have empty : Program.resume [token] = [] := by
      rw [Program.resume]
      split <;> rfl
    rw [skip, run_then (look_place last after List.nil_suffix), List.headD_nil, if_pos ended, empty]
    rfl
  | cons next tail ih =>
    intro depth token inside deep
    rw [List.length_cons] at deep
    obtain ⟨depth, rfl⟩ : ∃ less, depth = less + 1 := ⟨depth - 1, by omega⟩
    have within : next :: tail <:+ body := (List.suffix_cons token _).trans inside
    have stays : next.isEnd = false := inner next (within.mem List.mem_cons_self)
    rw [skip, run_then (look_place last after within), List.headD_cons, if_neg (by simp [stays]),
      run_then (behind_place last after inside), Program.resume]
    by_cases closed : token.isMark .semicolon = true
    · rw [if_pos closed, if_pos (by simp [closed])]
      rfl
    · rw [if_neg closed, run_then (look_place last after within), List.headD_cons]
      by_cases starts : next.startsStatement = true
      · rw [if_pos starts, if_pos (by simp [starts])]
        rfl
      · rw [if_neg starts, if_neg (by simp [closed, starts]),
          run_then (advance_place last after within stays)]
        exact ih within (by omega)

theorem resume_follows {rest : List Token} (inside : rest <:+ body) (deep : rest.length + 1 ≤ depth) :
    (resume (body ++ last :: after) depth).run (place body rest) =
      some ((), place body (Program.resume rest)) := by
  rw [resume]
  cases rest with
  | nil =>
    obtain ⟨depth, rfl⟩ : ∃ less, depth = less + 1 := Nat.exists_eq_add_of_le' deep
    obtain ⟨token, past⟩ := @advance_ended body last after ended
    rw [run_then past, skip, run_then (look_place last after List.nil_suffix), List.headD_nil,
      if_pos ended]
    rfl
  | cons token tail =>
    have stays : token.isEnd = false := inner token (inside.mem List.mem_cons_self)
    rw [run_then (advance_place last after inside stays)]
    exact skip_follows after inner ended inside (Nat.le_of_succ_le deep)

-- An attempt starts one call deeper than the one before it.
theorem attempts_follows : ∀ {rest : List Token}, rest <:+ body → 6 * rest.length + 7 ≤ depth →
    (attempts (body ++ last :: after) depth).run (place body rest) =
      some ((Program.attempts rest).map (Except.mapError (refusal last)), place body []) := by
  induction depth with
  | zero =>
    intro rest inside deep
    omega
  | succ depth ih =>
    intro rest inside deep
    rw [attempts, run_then (look_place last after inside)]
    by_cases empty : rest = []
    · rw [empty, List.headD_nil, if_pos ended, Program.attempts_nil]
      rfl
    · obtain ⟨token, tail, rfl⟩ := List.exists_cons_of_ne_nil empty
      have stays : token.isEnd = false := inner token (inside.mem List.mem_cons_self)
      have shorter := Program.leftover_shorter empty
      have later := ih ((Program.leftover_suffix _).trans inside) (by omega)
      obtain ⟨within, run⟩ := @declaration_follows body last after inner ended depth _ inside (by omega)
      have most := (Stmt.read_suffix (token :: tail)).length_le
      rw [Program.leftover] at later
      rw [List.headD_cons, if_neg (by simp [stays])]
      cases found : Stmt.read (token :: tail) with
      | ok pair =>
        obtain ⟨stmt, rest⟩ := pair
        rw [found] at later
        rw [found, outcome] at run
        rw [run_then run, run_then later, Program.attempts_ok found]
        rfl
      | error failure =>
        rw [found] at later
        rw [found, Reading.rest] at within most
        rw [found, outcome] at run
        have passed := resume_follows after inner ended within (by omega : _ ≤ depth)
        rw [run_then run, run_then passed, run_then later, Program.attempts_error empty found]
        rfl

end

theorem program_read {tokens : List Token}
    (ended : tokens = [] ∨ ∃ token ∈ tokens, token.isEnd = true) {depth : Nat}
    (deep : 6 * (Program.body tokens).length + 7 ≤ depth) :
    program tokens depth = some (Program.read tokens) := by
  rcases ended with rfl | ended
  · rfl
  · obtain ⟨last, after, whole, ends, found⟩ := Program.body_ended ended
    have run := attempts_follows after (Program.body_inner tokens) ends (List.suffix_refl _) deep
    rw [← whole, place, Nat.sub_self] at run
    have some : tokens.isEmpty = false := by
      rw [whole]
      simp
    have statements : Except.toOption ∘ Except.mapError (refusal last) = Program.stmt? := by
      funext result
      cases result <;> rfl
    have errors : refused ∘ Except.mapError (refusal last) = Program.diagnostic? last := by
      funext result
      cases result <;> rfl
    rw [program, if_neg (by simp [some]), run, Program.read_ended found]
    simp only [Option.bind_eq_bind, Option.bind_some, List.filterMap_map, statements, errors]
    rfl

end Cursor

theorem declares_two {tokens : List Token} {stmt : Stmt} (declared : Declares tokens stmt) :
    2 ≤ tokens.length := by
  cases declared with
  | bare _ _ _ => simp
  | initialized _ _ _ _ _ => simp
  | print _ _ _ => simp
  | expression inner _ =>
    obtain ⟨token, rest, rfl, _⟩ := derives_head inner
    simp

namespace Program

theorem attempts_weight (last : Token) (tokens : List Token) :
    ((attempts tokens).filterMap (diagnostic? last)).length +
      2 * ((attempts tokens).filterMap stmt?).length ≤ tokens.length := by
  generalize size : tokens.length = count
  induction count using Nat.strongRecOn generalizing tokens with
  | ind count ih =>
    by_cases empty : tokens = []
    · rw [empty, attempts_nil]
      exact Nat.zero_le count
    · cases found : Stmt.read tokens with
      | ok pair =>
        obtain ⟨used, rfl, declared⟩ := Stmt.read_ok_iff.mp found
        have two := declares_two declared
        rw [List.length_append] at size
        have later := ih pair.2.length (by omega) pair.2 rfl
        rw [attempts_ok found]
        simp only [List.filterMap_cons, diagnostic?, stmt?, List.length_cons]
        omega
      | error failure =>
        have less := leftover_shorter empty
        simp only [leftover, found] at less
        have later := ih (resume failure.rest).length (by omega) (resume failure.rest) rfl
        rw [attempts_error empty found]
        simp only [List.filterMap_cons, diagnostic?, stmt?, List.length_cons]
        omega

theorem read_weight (tokens : List Token) :
    (read tokens).errors.length + 2 * (read tokens).statements.length ≤ (body tokens).length := by
  cases found : tokens.find? Token.isEnd with
  | none =>
    rw [read, found]
    exact Nat.zero_le _
  | some last =>
    rw [read_ended found]
    exact attempts_weight last (body tokens)

theorem read_cut {tokens : List Token} {last : Token} (found : tokens.find? Token.isEnd = some last)
    (after : List Token) :
    (∃ token ∈ body tokens ++ last :: after, token.isEnd = true) ∧
      body (body tokens ++ last :: after) = body tokens ∧
      read (body tokens ++ last :: after) = read tokens := by
  have ends : last.isEnd = true := List.find?_some found
  have inner : ∀ token ∈ body tokens, token.kind ≠ .eof := by
    intro token member kind
    have stays := body_inner tokens token member
    rw [Token.is_end_iff.mpr kind] at stays
    cases stays
  have again : (body tokens ++ last :: after).find? Token.isEnd = some last := by
    rw [find_end_past inner, List.find?_cons_of_pos ends]
  have cut : body (body tokens ++ last :: after) = body tokens := body_append inner ends
  refine ⟨⟨last, by simp, ends⟩, cut, ?_⟩
  rw [read_ended again, read_ended found, cut]

theorem descent_in_bounds (tokens : List Token)
    (ended : tokens = [] ∨ ∃ token ∈ tokens, token.isEnd = true) :
    (∀ depth, 6 * (body tokens).length + 7 ≤ depth →
      Cursor.program tokens depth = some (read tokens)) ∧
    (read tokens).errors.length + 2 * (read tokens).statements.length ≤ (body tokens).length ∧
    ∀ last after, tokens.find? Token.isEnd = some last →
      read (body tokens ++ last :: after) = read tokens ∧
      ∀ depth, 6 * (body tokens).length + 7 ≤ depth →
        Cursor.program (body tokens ++ last :: after) depth = Cursor.program tokens depth := by
  refine ⟨fun depth deep => Cursor.program_read ended deep, read_weight tokens, ?_⟩
  intro last after found
  obtain ⟨again, cut, same⟩ := read_cut found after
  refine ⟨same, ?_⟩
  intro depth deep
  rw [Cursor.program_read (.inr again) (by rw [cut]; exact deep), Cursor.program_read ended deep, same]

def overlong : List Token := (scan "nil + ; print (nil);").tokens ++ (scan "var = nil").tokens

theorem descent_in_bounds_overlong :
    (overlong = [] ∨ ∃ token ∈ overlong, token.isEnd = true) ∧ (body overlong).length = 8 ∧
    Cursor.program overlong 55 = some (read overlong) ∧
    (read overlong).errors.length = 1 ∧ (read overlong).statements.length = 1 ∧
    (read overlong).errors.length + 2 * (read overlong).statements.length ≤ (body overlong).length ∧
    overlong.find? Token.isEnd = some (.atEnd 1) ∧
    Cursor.program (body overlong ++ [.atEnd 1]) 55 = Cursor.program overlong 55 := by
  have ended : overlong = [] ∨ ∃ token ∈ overlong, token.isEnd = true := .inr (by decide +kernel)
  have size : (body overlong).length = 8 := by decide +kernel
  have deep : 6 * (body overlong).length + 7 ≤ 55 := by rw [size]
  have found : overlong.find? Token.isEnd = some (.atEnd 1) := by rfl
  obtain ⟨run, bound, cut⟩ := descent_in_bounds overlong ended
  exact ⟨ended, size, run 55 deep, by decide +kernel, by decide +kernel, bound, found,
    (cut _ [] found).2 55 deep⟩

end Program
end Lox
