import Lox.Proofs.CorrectPrefix
import Mathlib.Data.List.Forall2

set_option autoImplicit false

namespace Lox

inductive Segment where
  | accepted (start stop : Nat) (stmt : Stmt)
  | skipped (start stop misfit : Nat)

namespace Program

def statementWords : List Keyword :=
  [.class, .fun, .var, .for, .if, .while, .print, .return]

def Boundary (tokens : List Token) (index : Nat) : Prop :=
  index = tokens.length ∨
  (∃ token, tokens[index - 1]? = some token ∧ token.kind = .mark .semicolon) ∨
  ∃ token, tokens[index]? = some token ∧ ∃ word ∈ statementWords, token.kind = .keyword word

-- The least boundary after the misfit, or the end if the misfit is the end.
def Resumes (tokens : List Token) (misfit stop : Nat) : Prop :=
  (misfit = tokens.length ∧ stop = tokens.length) ∨
  (misfit < stop ∧ Boundary tokens stop ∧ ∀ index, misfit < index → index < stop → ¬ Boundary tokens index)

theorem starts_statement_iff {token : Token} :
    token.startsStatement = true ↔ ∃ word ∈ statementWords, token.kind = .keyword word := by
  rw [Token.startsStatement.eq_def]
  cases token.kind with
  | keyword word => cases word <;> simp [statementWords]
  | _ => simp

theorem boundary_le {tokens : List Token} {index : Nat} (boundary : Boundary tokens index) :
    index ≤ tokens.length := by
  rcases boundary with last | ⟨token, place, _⟩ | ⟨token, place, _⟩
  · exact Nat.le_of_eq last
  · have inside := (List.getElem?_eq_some_iff.mp place).1
    omega
  · exact Nat.le_of_lt (List.getElem?_eq_some_iff.mp place).1

theorem boundary_succ {tokens : List Token} {index : Nat} (inside : index < tokens.length) :
    Boundary tokens (index + 1) ↔ index + 1 = tokens.length ∨
      (tokens[index].isMark .semicolon ||
        (tokens.drop (index + 1)).head?.any Token.startsStatement) = true := by
  have after : tokens[index + 1]? = (tokens.drop (index + 1)).head? := by simp
  rw [Boundary, Nat.add_sub_cancel, List.getElem?_eq_getElem inside, after, Bool.or_eq_true,
    Token.is_mark_iff, Option.any_eq_true]
  simp [starts_statement_iff]

theorem resume_drop {tokens : List Token} {misfit : Nat} (inside : misfit ≤ tokens.length) :
    ∃ stop, resume (tokens.drop misfit) = tokens.drop stop ∧ Resumes tokens misfit stop := by
  obtain ⟨count, size⟩ := Nat.exists_eq_add_of_le inside
  induction count generalizing misfit with
  | zero =>
    have last : misfit = tokens.length := size.symm
    exact ⟨tokens.length, by rw [last, List.drop_length, resume], .inl ⟨last, rfl⟩⟩
  | succ count ih =>
    have here : misfit < tokens.length := by omega
    rw [List.drop_eq_getElem_cons here, resume]
    by_cases boundary : (tokens[misfit].isMark .semicolon ||
        (tokens.drop (misfit + 1)).head?.any Token.startsStatement) = true
    · rw [if_pos boundary]
      refine ⟨misfit + 1, rfl, .inr ⟨Nat.lt_succ_self _, (boundary_succ here).mpr (.inr boundary), ?_⟩⟩
      intro index above below
      omega
    · rw [if_neg boundary]
      obtain ⟨stop, rest, resumes⟩ := ih (Nat.succ_le_of_lt here) (by omega)
      refine ⟨stop, rest, .inr ?_⟩
      rcases resumes with ⟨last, stops⟩ | ⟨behind, stops, least⟩
      · refine ⟨by omega, .inl stops, ?_⟩
        intro index above below
        omega
      · refine ⟨by omega, stops, ?_⟩
        intro index above below
        by_cases next : index = misfit + 1
        · rw [next, boundary_succ here]
          have bound := boundary_le stops
          intro either
          rcases either with last | found
          · omega
          · exact boundary found
        · exact least index (by omega) below

end Program

namespace Segment

def start : Segment → Nat
  | .accepted start _ _ => start
  | .skipped start _ _ => start

def stop : Segment → Nat
  | .accepted _ stop _ => stop
  | .skipped _ stop _ => stop

def stmt? : Segment → Option Stmt
  | .accepted _ _ stmt => some stmt
  | .skipped _ _ _ => none

def misfit? : Segment → Option Nat
  | .accepted _ _ _ => none
  | .skipped _ _ misfit => some misfit

def Holds (tokens : List Token) : Segment → Prop
  | .accepted start stop stmt => Declares (tokens.extract start stop) stmt
  | .skipped start stop misfit =>
    start ≤ misfit ∧ misfit ≤ tokens.length ∧ Program.Resumes tokens misfit stop ∧
      ∀ index, ¬ Declaration (tokens.extract start index)

def Consecutive : Nat → List Segment → Nat → Prop
  | first, [], last => first = last
  | first, segment :: rest, last =>
    segment.start = first ∧ first < segment.stop ∧ Consecutive segment.stop rest last

theorem consecutive_le {first last : Nat} {segments : List Segment}
    (chain : Consecutive first segments last) : first ≤ last := by
  induction segments generalizing first with
  | nil => exact Nat.le_of_eq chain
  | cons segment rest ih =>
    obtain ⟨_, some, later⟩ := chain
    exact Nat.le_of_lt (Nat.lt_of_lt_of_le some (ih later))

theorem misfit_before {tokens : List Token} {misfit stop other : Nat} {rest : List Segment}
    (resumes : Program.Resumes tokens misfit stop) (later : Consecutive stop rest tokens.length)
    (member : other ∈ rest.filterMap misfit?) (behind : stop ≤ other) : misfit < other := by
  rcases resumes with ⟨_, stops⟩ | ⟨before, _, _⟩
  · cases rest with
    | nil => cases member
    | cons next rest =>
      obtain ⟨_, some, later⟩ := later
      have bound := consecutive_le later
      omega
  · omega

theorem misfits_sorted {tokens : List Token} {first : Nat} {segments : List Segment}
    (chain : Consecutive first segments tokens.length)
    (holds : ∀ segment ∈ segments, Holds tokens segment) :
    (∀ misfit ∈ segments.filterMap misfit?, first ≤ misfit) ∧
      (segments.filterMap misfit?).Pairwise (· < ·) := by
  induction segments generalizing first with
  | nil => exact ⟨by simp, .nil⟩
  | cons segment rest ih =>
    obtain ⟨same, some, later⟩ := chain
    obtain ⟨above, sorted⟩ := ih later fun segment member => holds segment (.tail _ member)
    have here := holds segment (.head _)
    cases segment with
    | accepted start stop stmt =>
      refine ⟨?_, sorted⟩
      intro misfit member
      exact Nat.le_trans (Nat.le_of_lt some) (above misfit member)
    | skipped start stop misfit =>
      obtain ⟨inside, _, resumes, _⟩ := here
      change start = first at same
      change first < stop at some
      refine ⟨?_, ?_⟩
      · intro other member
        rcases List.mem_cons.mp member with rfl | member
        · omega
        · exact Nat.le_trans (Nat.le_of_lt some) (above other member)
      · refine .cons ?_ sorted
        intro other member
        exact misfit_before resumes later member (above other member)

def Tells (tokens : List Token) (misfit : Nat) (diagnostic : Diagnostic) : Prop :=
  ∃ token expected, tokens[misfit]? = some token ∧
    diagnostic = .parseAt token (Expectation.message expected)

end Segment

namespace Program

open Segment

theorem accepted_segment {tokens rest : List Token} {start : Nat} {stmt : Stmt}
    (inside : start < tokens.length) (read : Stmt.read (tokens.drop start) = .ok (stmt, rest)) :
    ∃ stop, start < stop ∧ stop ≤ tokens.length ∧ rest = tokens.drop stop ∧
      Holds tokens (.accepted start stop stmt) := by
  obtain ⟨used, split, declared⟩ := Stmt.read_ok_iff.mp read
  obtain ⟨bound, left⟩ := drop_used (Nat.le_of_lt inside) split
  have shorter := Stmt.read_progress read
  rw [split, List.length_append] at shorter
  refine ⟨start + used.length, by omega, bound, left, ?_⟩
  rw [Holds, extract_drop split]
  exact declared

theorem skipped_segment {tokens : List Token} {start : Nat} {failure : Failure}
    (inside : start < tokens.length) (read : Stmt.read (tokens.drop start) = .error failure) :
    ∃ stop misfit, start < stop ∧ stop ≤ tokens.length ∧ resume failure.rest = tokens.drop stop ∧
      failure.rest = tokens.drop misfit ∧ Holds tokens (.skipped start stop misfit) := by
  obtain ⟨used, split, _, _⟩ := Stmt.read_error read
  obtain ⟨bound, rest⟩ := drop_used (Nat.le_of_lt inside) split
  obtain ⟨stop, resumed, resumes⟩ := resume_drop bound
  refine ⟨stop, start + used.length, ?_, ?_, rest ▸ resumed, rest, ?_⟩
  · rcases resumes with ⟨_, stops⟩ | ⟨above, _, _⟩ <;> omega
  · rcases resumes with ⟨_, stops⟩ | ⟨_, boundary, _⟩
    · exact Nat.le_of_eq stops
    · exact boundary_le boundary
  · refine ⟨by omega, by omega, resumes, ?_⟩
    intro index
    rw [List.extract_eq_take_drop]
    exact Stmt.read_error_none read _

theorem segments_from {tokens after : List Token} {last : Token}
    (whole : tokens = body tokens ++ last :: after) (start : Nat) (inside : start ≤ (body tokens).length) :
    ∃ segments, Consecutive start segments (body tokens).length ∧
      (∀ segment ∈ segments, Holds (body tokens) segment) ∧
      segments.map Segment.start = startsFrom (body tokens) start ∧
      (attempts ((body tokens).drop start)).filterMap stmt? = segments.filterMap Segment.stmt? ∧
      List.Forall₂ (Tells tokens) (segments.filterMap misfit?)
        ((attempts ((body tokens).drop start)).filterMap (diagnostic? last)) := by
  generalize size : (body tokens).length - start = count
  induction count using Nat.strongRecOn generalizing start with
  | ind count ih =>
    rcases Nat.eq_or_lt_of_le inside with ended | here
    · have done : startsFrom (body tokens) start = [] := by
        rw [startsFrom, if_neg (Nat.not_lt_of_le (Nat.le_of_eq ended.symm))]
      refine ⟨[], ended, by simp, done.symm, ?_, ?_⟩
      · simp [ended, attempts_nil]
      · simp [ended, attempts_nil]
    · have some : (body tokens).drop start ≠ [] := by simpa using here
      cases read : Stmt.read ((body tokens).drop start) with
      | ok pair =>
        obtain ⟨stop, above, below, rest, holds⟩ := accepted_segment here read
        obtain ⟨segments, chain, each, starting, stmts, told⟩ := ih _ (by omega) stop below rfl
        have left : leftover ((body tokens).drop start) = (body tokens).drop stop := by
          rw [leftover, read, ← rest]
        refine ⟨.accepted start stop pair.1 :: segments, ⟨rfl, above, chain⟩, ?_, ?_, ?_, ?_⟩
        · exact List.forall_mem_cons.mpr ⟨holds, each⟩
        · rw [starts_from_left here below left, List.map_cons, starting]
          rfl
        · rw [attempts_ok read, rest]
          exact congrArg (List.cons pair.1) stmts
        · rw [attempts_ok read, rest]
          exact told
      | error failure =>
        obtain ⟨stop, misfit, above, below, resumed, stuck, holds⟩ := skipped_segment here read
        obtain ⟨segments, chain, each, starting, stmts, told⟩ := ih _ (by omega) stop below rfl
        have left : leftover ((body tokens).drop start) = (body tokens).drop stop := by
          rw [leftover, read, ← resumed]
        refine ⟨.skipped start stop misfit :: segments, ⟨rfl, above, chain⟩, ?_, ?_, ?_, ?_⟩
        · exact List.forall_mem_cons.mpr ⟨holds, each⟩
        · rw [starts_from_left here below left, List.map_cons, starting]
          rfl
        · rw [attempts_error some read, resumed]
          exact stmts
        · rw [attempts_error some read, resumed]
          refine .cons ⟨_, failure.expected, getElem_body whole holds.2.1, ?_⟩ told
          rw [stuck]

theorem run_decomposes (tokens : List Token) (ended : ∃ token ∈ tokens, token.isEnd = true) :
    ∃ segments, Consecutive 0 segments (body tokens).length ∧
      (∀ segment ∈ segments, Holds (body tokens) segment) ∧
      segments.map Segment.start = starts tokens ∧
      (read tokens).statements = segments.filterMap Segment.stmt? ∧
      List.Forall₂ (Tells tokens) (segments.filterMap misfit?) (read tokens).errors ∧
      (segments.filterMap misfit?).Pairwise (· < ·) := by
  obtain ⟨last, after, whole, _, found⟩ := body_ended ended
  obtain ⟨segments, chain, holds, starting, stmts, told⟩ := segments_from whole 0 (Nat.zero_le _)
  refine ⟨segments, chain, holds, starting, ?_, ?_, (misfits_sorted chain holds).2⟩
  · rw [read_ended found]
    exact stmts
  · rw [read_ended found]
    exact told

theorem broken_segments {segments : List Segment} (chain : Consecutive 0 segments 11)
    (size : (body broken).length = 11) (holds : ∀ segment ∈ segments, Holds (body broken) segment)
    (starting : segments.map Segment.start = [0, 4, 7])
    (misfits : segments.filterMap misfit? = [1, 11]) :
    ∃ stmt, segments = [.skipped 0 4 1, .accepted 4 7 stmt, .skipped 7 11 11] := by
  obtain ⟨first, rest, rfl, zero, more⟩ := List.map_eq_cons_iff.mp starting
  obtain ⟨second, rest, rfl, four, more⟩ := List.map_eq_cons_iff.mp more
  obtain ⟨third, rest, rfl, seven, none⟩ := List.map_eq_cons_iff.mp more
  obtain rfl := List.map_eq_nil_iff.mp none
  obtain ⟨_, _, stop, _, next, _, last⟩ := chain
  have middle := holds second (by simp)
  cases first with
  | accepted start stop stmt =>
    cases second with
    | accepted start stop stmt => cases third <;> cases misfits
    | skipped start stop misfit =>
      cases third with
      | accepted start stop stmt => cases misfits
      | skipped start stop misfit =>
        cases misfits
        have inside : 4 ≤ 1 := four ▸ middle.1
        omega
  | skipped start stop misfit =>
    cases second with
    | accepted start stop stmt =>
      cases third with
      | accepted start stop stmt => cases misfits
      | skipped start stop misfit =>
        cases misfits
        cases zero
        cases four
        cases seven
        cases stop
        cases next
        cases last
        exact ⟨_, rfl⟩
    | skipped start stop misfit =>
      cases third with
      | skipped start stop misfit => cases misfits
      | accepted start stop stmt =>
        cases misfits
        rcases middle.2.2.1 with ⟨_, ended⟩ | ⟨above, boundary, _⟩
        · have same : 7 = 11 := seven.symm.trans (next.trans (ended.trans size))
          omega
        · have bound := boundary_le boundary
          omega

theorem run_decomposes_broken :
    (∃ token ∈ broken, token.isEnd = true) ∧
      Consecutive 0 [.skipped 0 4 1, .accepted 4 7 (.print (.literal .nil)), .skipped 7 11 11]
        (body broken).length ∧
      Holds (body broken) (.skipped 0 4 1) ∧
      Holds (body broken) (.accepted 4 7 (.print (.literal .nil))) ∧
      Holds (body broken) (.skipped 7 11 11) ∧
      (read broken).statements = [.print (.literal .nil)] ∧ (read broken).errors = brokenErrors ∧
      List.Forall₂ (Tells broken) [1, 11] brokenErrors := by
  have ended : ∃ token ∈ broken, token.isEnd = true := by decide +kernel
  have size : (body broken).length = 11 := by decide +kernel
  have starting : starts broken = [0, 4, 7] := by decide +kernel
  have errors : (read broken).errors = brokenErrors := by decide +kernel
  obtain ⟨segments, chain, holds, started, stmts, told, _⟩ := run_decomposes broken ended
  rw [errors] at told
  obtain ⟨misfit, misfits, ⟨_, _, place, same⟩, more, split⟩ := List.forall₂_cons_right_iff.mp told
  obtain ⟨last, _, ⟨_, _, placeLast, sameLast⟩, ends, rfl⟩ := List.forall₂_cons_right_iff.mp more
  obtain rfl := List.forall₂_nil_right_iff.mp ends
  obtain rfl := (broken_place place same).1 rfl
  obtain rfl := (broken_place placeLast sameLast).2 rfl
  obtain ⟨stmt, rfl⟩ := broken_segments (size ▸ chain) size holds (started.trans starting) split
  have kept : (body broken).extract 4 7 =
      [⟨.keyword .print, "print", 1⟩, ⟨.keyword .nil, "nil", 1⟩, ⟨.mark .semicolon, ";", 1⟩] := by rfl
  have printed : Declares ((body broken).extract 4 7) (.print (.literal .nil)) := by
    rw [kept]
    exact @Declares.print _ _ [_] _ rfl (derives_loosen (by decide) (.literal rfl)) rfl
  have declared : Declares ((body broken).extract 4 7) stmt := holds (.accepted 4 7 stmt) (by simp)
  cases (Stmt.read_declared printed []).symm.trans (Stmt.read_declared declared [])
  exact ⟨ended, chain, holds _ (by simp), printed, holds _ (by simp), stmts, errors, told⟩

end Program
end Lox
