import Lox.Proofs.Attempts
import Lox.Source

set_option autoImplicit false

namespace Lox
namespace Program

def startsFrom (tokens : List Token) (start : Nat) : List Nat :=
  if start < tokens.length then
    start :: startsFrom tokens (tokens.length - (leftover (tokens.drop start)).length)
  else []
termination_by tokens.length - start
decreasing_by
  rename_i inside
  have some : tokens.drop start ≠ [] := by simpa using inside
  have shorter := leftover_shorter some
  simp only [List.length_drop] at shorter
  omega

def starts (tokens : List Token) : List Nat := startsFrom (body tokens) 0

def attempt (tokens : List Token) (start : Nat) : Except Failure Stmt :=
  (Stmt.read (tokens.drop start)).map Prod.fst

theorem attempts_drop (tokens : List Token) (start : Nat) :
    attempts (tokens.drop start) = (startsFrom tokens start).map (attempt tokens) := by
  induction start using startsFrom.induct tokens with
  | case1 start inside ih =>
    have rest := List.suffix_iff_eq_drop.mp
      ((leftover_suffix (tokens.drop start)).trans (List.drop_suffix start tokens))
    rw [startsFrom, if_pos inside, List.map_cons, ← ih, ← rest]
    exact attempts_some (by simpa using inside)
  | case2 start outside =>
    rw [startsFrom, if_neg outside, List.drop_of_length_le (Nat.le_of_not_lt outside)]
    exact attempts_nil

theorem starts_from_left {tokens : List Token} {start stop : Nat} (inside : start < tokens.length)
    (below : stop ≤ tokens.length) (left : leftover (tokens.drop start) = tokens.drop stop) :
    startsFrom tokens start = start :: startsFrom tokens stop := by
  rw [startsFrom, if_pos inside, left, List.length_drop, Nat.sub_sub_self below]

def report (tokens : List Token) (start : Nat) : Option Diagnostic :=
  (tokens.find? Token.isEnd).bind fun last => diagnostic? last (attempt (body tokens) start)

structure Misfit (tokens : List Token) (start misfit : Nat) : Prop where
  start_le : start ≤ misfit
  le_end : misfit ≤ (body tokens).length
  begins_iff : ∀ stop, BeginsDeclaration (tokens.extract start stop) ↔ stop ≤ misfit

theorem attempt_error {tokens : List Token} {start : Nat} {failure : Failure}
    (failed : attempt tokens start = .error failure) :
    Stmt.read (tokens.drop start) = .error failure := by
  rw [attempt] at failed
  cases outcome : Stmt.read (tokens.drop start) with
  | ok pair => rw [outcome] at failed; cases failed
  | error found => rw [outcome] at failed; cases failed; rfl

theorem starts_inside {tokens : List Token} {first start : Nat}
    (member : start ∈ startsFrom tokens first) : start < tokens.length := by
  induction first using startsFrom.induct tokens with
  | case1 first inside ih =>
    rw [startsFrom, if_pos inside] at member
    rcases List.mem_cons.mp member with rfl | later
    · exact inside
    · exact ih later
  | case2 first outside =>
    rw [startsFrom, if_neg outside] at member
    cases member

theorem drop_used {tokens used rest : List Token} {start : Nat} (inside : start ≤ tokens.length)
    (split : tokens.drop start = used ++ rest) :
    start + used.length ≤ tokens.length ∧ rest = tokens.drop (start + used.length) := by
  have size := congrArg List.length split
  simp only [List.length_drop, List.length_append] at size
  refine ⟨by omega, ?_⟩
  rw [← List.drop_drop, split, List.drop_left]

theorem extract_drop {tokens used rest : List Token} {start : Nat}
    (split : tokens.drop start = used ++ rest) : tokens.extract start (start + used.length) = used := by
  rw [List.extract_eq_take_drop, split, Nat.add_sub_cancel_left, List.take_left]

theorem drop_body {tokens after : List Token} {last : Token}
    (whole : tokens = body tokens ++ last :: after) {stop : Nat} (stays : stop ≤ (body tokens).length) :
    tokens.drop stop = (body tokens).drop stop ++ last :: after := by
  rw [← List.drop_append_of_le_length stays, ← whole]

theorem extract_used {tokens after used rest : List Token} {last : Token} {start : Nat}
    (whole : tokens = body tokens ++ last :: after) (inside : start ≤ (body tokens).length)
    (split : (body tokens).drop start = used ++ rest) :
    tokens.extract start (start + used.length) = used := by
  have ahead : tokens.drop start = used ++ (rest ++ last :: after) := by
    rw [drop_body whole inside, split, List.append_assoc]
  exact extract_drop ahead

theorem getElem_body {tokens after : List Token} {last : Token}
    (whole : tokens = body tokens ++ last :: after) {misfit : Nat}
    (inside : misfit ≤ (body tokens).length) :
    tokens[misfit]? = some (((body tokens).drop misfit).headD last) := by
  have first : tokens[misfit]? = (tokens.drop misfit).head? := by simp
  rw [first, drop_body whole inside]
  cases (body tokens).drop misfit <;> rfl

theorem attempt_misfit {tokens after : List Token} {start : Nat} {last : Token} {failure : Failure}
    (whole : tokens = body tokens ++ last :: after) (ended : last.isEnd = true)
    (inside : start ≤ (body tokens).length)
    (failed : attempt (body tokens) start = .error failure) :
    ∃ misfit, Misfit tokens start misfit ∧ failure.rest = (body tokens).drop misfit ∧
      tokens[misfit]? = some (failure.rest.headD last) := by
  obtain ⟨used, split, begins, stuck⟩ := Stmt.read_error (attempt_error failed)
  obtain ⟨token, more, front, unfit⟩ : ∃ token more,
      failure.rest ++ last :: after = token :: more ∧ ¬ BeginsDeclaration (used ++ [token]) := by
    cases rest : failure.rest with
    | nil => exact ⟨last, after, rfl, ended_not_begun ended⟩
    | cons token tail => exact ⟨token, tail ++ last :: after, rfl, stuck token (by rw [rest]; rfl)⟩
  have dropped : tokens.drop start = used ++ token :: more := by
    rw [drop_body whole inside, split, List.append_assoc, front]
  obtain ⟨bound, rest⟩ := drop_used inside split
  refine ⟨start + used.length, ⟨Nat.le_add_right .., bound, ?_⟩, rest, ?_⟩
  · intro stop
    rw [List.extract_eq_take_drop, dropped, begins_take_iff begins unfit]
    omega
  · rw [rest]
    exact getElem_body whole bound

theorem report_misfit {tokens : List Token} (ended : ∃ token ∈ tokens, token.isEnd = true)
    {start : Nat} (inside : start ≤ (body tokens).length) {diagnostic : Diagnostic}
    (told : report tokens start = some diagnostic) :
    ∃ misfit token expected, Misfit tokens start misfit ∧ tokens[misfit]? = some token ∧
      diagnostic = .parseAt token (Expectation.message expected) := by
  obtain ⟨last, after, whole, ends, found⟩ := body_ended ended
  rw [report, found, Option.bind_some] at told
  cases outcome : attempt (body tokens) start with
  | ok stmt => rw [outcome] at told; cases told
  | error failure =>
    rw [outcome] at told
    cases told
    obtain ⟨misfit, fits, _, place⟩ := attempt_misfit whole ends inside outcome
    exact ⟨misfit, _, failure.expected, fits, place, rfl⟩

theorem report_some {tokens : List Token} (ended : ∃ token ∈ tokens, token.isEnd = true)
    {start : Nat} (inside : start ≤ (body tokens).length)
    (none : ∀ stop, ¬ Declaration (tokens.extract start stop)) :
    ∃ diagnostic, report tokens start = some diagnostic := by
  obtain ⟨last, after, whole, ends, found⟩ := body_ended ended
  rw [report, found, Option.bind_some]
  cases outcome : Stmt.read ((body tokens).drop start) with
  | error failure => exact ⟨_, by rw [attempt, outcome]; rfl⟩
  | ok pair =>
    obtain ⟨used, split, declared⟩ := Stmt.read_ok_iff.mp outcome
    have refused := none (start + used.length)
    rw [extract_used whole inside split] at refused
    exact absurd ⟨pair.1, declared⟩ refused

theorem errors_at_misfits (tokens : List Token) (ended : ∃ token ∈ tokens, token.isEnd = true) :
    (read tokens).errors = (starts tokens).filterMap (report tokens) ∧
    ∀ start ∈ starts tokens,
      (∀ diagnostic, report tokens start = some diagnostic →
        ∃ misfit token expected, Misfit tokens start misfit ∧ tokens[misfit]? = some token ∧
          diagnostic = .parseAt token (Expectation.message expected)) ∧
      ((∀ stop, ¬ Declaration (tokens.extract start stop)) →
        ∃ diagnostic, report tokens start = some diagnostic) := by
  refine ⟨?_, ?_⟩
  · obtain ⟨last, after, whole, ends, found⟩ := body_ended ended
    have run := attempts_drop (body tokens) 0
    rw [List.drop_zero] at run
    have told : report tokens = diagnostic? last ∘ attempt (body tokens) := by
      funext start
      rw [report, found]
      rfl
    simp only [read_ended found, run, List.filterMap_map, told, starts]
  · intro start member
    have inside := Nat.le_of_lt (starts_inside member)
    exact ⟨fun diagnostic told => report_misfit ended inside told, report_some ended inside⟩

theorem declares_closed {tokens : List Token} {stmt : Stmt} (declared : Declares tokens stmt) :
    ∃ token ∈ tokens, token.kind = .mark .semicolon := by
  cases declared with
  | bare _ _ ends => exact ⟨_, by simp, ends⟩
  | initialized _ _ _ _ ends => exact ⟨_, by simp, ends⟩
  | print _ _ ends => exact ⟨_, by simp, ends⟩
  | expression _ ends => exact ⟨_, by simp, ends⟩

-- A name is missing, then a declaration is whole, then a parenthesis is open at the end.
def broken : List Token := (scan "var = nil; print nil; nil == (nil").tokens

def brokenErrors : List Diagnostic :=
  [.parse 1 " at '='" "Expect variable name.", .parse 1 " at end" "Expect ')' after expression."]

theorem broken_places : ∀ index : Fin broken.length,
    (Diagnostic.location broken[index] = " at '='" → index.val = 1) ∧
      (Diagnostic.location broken[index] = " at end" → index.val = 11) := by decide +kernel

theorem broken_place {misfit : Nat} {token : Token} {expected : Expectation} {text message : String}
    (place : broken[misfit]? = some token)
    (told : Diagnostic.parse 1 text message = .parseAt token (Expectation.message expected)) :
    (text = " at '='" → misfit = 1) ∧ (text = " at end" → misfit = 11) := by
  obtain ⟨inside, rfl⟩ := List.getElem?_eq_some_iff.mp place
  obtain ⟨_, rfl, _⟩ := Diagnostic.parse.inj told
  exact broken_places ⟨misfit, inside⟩

theorem errors_at_misfits_broken :
    ((∃ token ∈ broken, token.isEnd = true) ∧ starts broken = [0, 4, 7] ∧
      report broken 0 = some (.parse 1 " at '='" "Expect variable name.") ∧
      ∀ stop, ¬ Declaration (broken.extract 7 stop)) ∧
    (read broken).errors = brokenErrors ∧ Misfit broken 0 1 ∧ Misfit broken 7 11 ∧
      report broken 7 = some (.parse 1 " at end" "Expect ')' after expression.") := by
  have ended : ∃ token ∈ broken, token.isEnd = true := by decide +kernel
  have starting : starts broken = [0, 4, 7] := by decide +kernel
  have missing : report broken 0 = some (.parse 1 " at '='" "Expect variable name.") := by decide +kernel
  have unclosed : ∀ token ∈ broken.drop 7, token.kind ≠ .mark .semicolon := by
    have none : ∀ token ∈ broken.drop 7, token.isMark .semicolon = false := by decide +kernel
    intro token member
    rw [Ne, ← Token.is_mark_iff, none token member]
    simp
  have undeclared : ∀ stop, ¬ Declaration (broken.extract 7 stop) := by
    rintro stop ⟨stmt, declared⟩
    obtain ⟨semicolon, member, closes⟩ := declares_closed declared
    rw [List.extract_eq_take_drop] at member
    exact unclosed semicolon (List.mem_of_mem_take member) closes
  have whole : report broken 4 = none := by decide +kernel
  have opened : report broken 7 = some (.parse 1 " at end" "Expect ')' after expression.") := by
    decide +kernel
  obtain ⟨all, each⟩ := errors_at_misfits broken ended
  rw [starting] at all each
  obtain ⟨first, _, _, fits, place, same⟩ := (each 0 (by simp)).1 _ missing
  obtain rfl := (broken_place place same).1 rfl
  obtain ⟨diagnostic, told⟩ := (each 7 (by simp)).2 undeclared
  obtain rfl := Option.some.inj (told.symm.trans opened)
  obtain ⟨last, _, _, fitsLast, placeLast, sameLast⟩ := (each 7 (by simp)).1 _ told
  obtain rfl := (broken_place placeLast sameLast).2 rfl
  refine ⟨⟨ended, starting, missing, undeclared⟩, ?_, fits, fitsLast, told⟩
  rw [all, List.filterMap_cons_some missing, List.filterMap_cons_none whole,
    List.filterMap_cons_some told]
  rfl

end Program
end Lox
