import Lox.Proofs.Declarations

set_option autoImplicit false

namespace Lox
namespace Stmt

theorem read_ok_iff {tokens rest : List Token} {stmt : Stmt} :
    read tokens = .ok (stmt, rest) ↔ ∃ used, tokens = used ++ rest ∧ Declares used stmt := by
  apply Iff.intro
  · intro accepted
    have verdict := verdict tokens
    cases verdict with
    | @accepted used later found declared =>
      rw [read_declared declared] at accepted
      cases accepted
      exact ⟨used, rfl, declared⟩
    | @misfit used later expected begins fails =>
      rw [fails later rfl] at accepted
      cases accepted
  · intro front
    obtain ⟨used, rfl, declared⟩ := front
    exact read_declared declared rest

theorem read_error {tokens : List Token} {failure : Failure} (failed : read tokens = .error failure) :
    ∃ used, tokens = used ++ failure.rest ∧ BeginsDeclaration used ∧
      ∀ token, failure.rest.head? = some token → ¬ BeginsDeclaration (used ++ [token]) := by
  have verdict := verdict tokens
  cases verdict with
  | accepted declared =>
    rw [read_declared declared] at failed
    cases failed
  | @misfit used rest expected begins fails =>
    rw [fails rest rfl] at failed
    cases failed
    refine ⟨used, rfl, begins, ?_⟩
    intro token first begun
    obtain ⟨more, stmt, declared⟩ := begun
    have same : (token :: more).head? = rest.head? := first.symm
    have accepted := read_declared declared []
    rw [List.append_nil, List.append_assoc, List.singleton_append, fails _ same] at accepted
    cases accepted

theorem read_error_none {tokens : List Token} {failure : Failure}
    (failed : read tokens = .error failure) (count : Nat) : ¬ Declaration (tokens.take count) := by
  intro whole
  obtain ⟨stmt, declared⟩ := whole
  have accepted := read_declared declared (tokens.drop count)
  rw [List.take_append_drop, failed] at accepted
  cases accepted

end Stmt

theorem begins_take_iff {used more : List Token} {token : Token} (begins : BeginsDeclaration used)
    (stuck : ¬ BeginsDeclaration (used ++ [token])) (count : Nat) :
    BeginsDeclaration ((used ++ token :: more).take count) ↔ count ≤ used.length := by
  apply Iff.intro
  · intro begun
    by_cases short : count ≤ used.length
    · exact short
    · obtain ⟨extra, rfl⟩ : ∃ extra, count = used.length + (extra + 1) :=
        ⟨count - used.length - 1, by omega⟩
      rw [List.take_length_add_append, List.take_succ_cons,
        show used ++ token :: more.take extra = (used ++ [token]) ++ more.take extra by simp] at begun
      exact absurd (begins_of_append begun) stuck
  · intro short
    rw [List.take_append_of_le_length short]
    exact begins_of_append (b := used.drop count) (by simpa using begins)

theorem ended_not_begun {tokens : List Token} {last : Token} (ended : last.isEnd = true) :
    ¬ BeginsDeclaration (tokens ++ [last]) := by
  intro begun
  obtain ⟨more, stmt, declared⟩ := begun
  exact declares_no_end declared last (by simp) (Token.is_end_iff.mp ended)

namespace Program

def body (tokens : List Token) : List Token := tokens.takeWhile fun token => !token.isEnd

theorem body_inner (tokens : List Token) : ∀ token ∈ body tokens, token.isEnd = false := by
  have all : (body tokens).all (fun token => !token.isEnd) = true := List.all_takeWhile
  simpa using all

theorem body_ended {tokens : List Token} (ended : ∃ token ∈ tokens, token.isEnd = true) :
    ∃ last after, tokens = body tokens ++ last :: after ∧ last.isEnd = true ∧
      tokens.find? Token.isEnd = some last := by
  induction tokens with
  | nil =>
    obtain ⟨token, member, _⟩ := ended
    cases member
  | cons token rest ih =>
    cases stop : token.isEnd with
    | true => exact ⟨token, rest, by simp [body, stop], stop, by simp [stop]⟩
    | false =>
      have later : ∃ token ∈ rest, token.isEnd = true := by simpa [stop] using ended
      obtain ⟨last, after, whole, ends, found⟩ := ih later
      refine ⟨last, after, ?_, ends, by simpa [stop] using found⟩
      rw [body, List.takeWhile_cons_of_pos (by simp [stop]), List.cons_append]
      exact congrArg (List.cons token) whole

theorem read_ended {tokens : List Token} {last : Token} (found : tokens.find? Token.isEnd = some last) :
    read tokens = ⟨(attempts (body tokens)).filterMap stmt?,
      (attempts (body tokens)).filterMap (diagnostic? last)⟩ := by
  rw [read, found]
  rfl

theorem resume_suffix (tokens : List Token) : resume tokens <:+ tokens := by
  induction tokens with
  | nil => exact List.suffix_refl _
  | cons token rest ih =>
    rw [resume]
    split
    · exact List.suffix_cons token rest
    · exact ih.trans (List.suffix_cons token rest)

def leftover (tokens : List Token) : List Token :=
  match Stmt.read tokens with
  | .ok (_, later) => later
  | .error failure => resume failure.rest

theorem leftover_suffix (tokens : List Token) : leftover tokens <:+ tokens := by
  have inside := Stmt.read_suffix tokens
  rw [leftover]
  cases outcome : Stmt.read tokens with
  | ok pair =>
    rw [outcome] at inside
    exact inside
  | error failure =>
    rw [outcome] at inside
    exact (resume_suffix _).trans inside

theorem leftover_shorter {tokens : List Token} (some : tokens ≠ []) :
    (leftover tokens).length < tokens.length := by
  have positive := List.length_pos_iff.mpr some
  have inside := (Stmt.read_suffix tokens).length_le
  rw [leftover]
  cases outcome : Stmt.read tokens with
  | ok pair => exact Stmt.read_progress outcome
  | error failure =>
    rw [outcome] at inside
    have shorter := resume_shorter failure.rest
    simp only [Reading.rest] at inside
    simp only
    omega

theorem attempts_nil : attempts [] = [] := by
  rw [attempts]

theorem attempts_some {tokens : List Token} (some : tokens ≠ []) :
    attempts tokens = (Stmt.read tokens).map Prod.fst :: attempts (leftover tokens) := by
  cases tokens with
  | nil => exact absurd rfl some
  | cons token rest =>
    rw [attempts, leftover]
    split
    · rename_i found
      rw [found]
      rfl
    · rename_i found
      rw [found]
      rfl

theorem attempts_ok {tokens later : List Token} {stmt : Stmt}
    (accepted : Stmt.read tokens = .ok (stmt, later)) :
    attempts tokens = .ok stmt :: attempts later := by
  have some : tokens ≠ [] := by
    intro empty
    rw [empty] at accepted
    cases accepted
  rw [attempts_some some, leftover, accepted]
  rfl

theorem attempts_error {tokens : List Token} {failure : Failure} (some : tokens ≠ [])
    (failed : Stmt.read tokens = .error failure) :
    attempts tokens = .error failure :: attempts (resume failure.rest) := by
  rw [attempts_some some, leftover, failed]
  rfl

theorem attempts_cons {tokens : List Token} {stmt : Stmt} {rest : List (Except Failure Stmt)}
    (run : attempts tokens = .ok stmt :: rest) :
    ∃ used later, tokens = used ++ later ∧ Declares used stmt ∧ attempts later = rest := by
  have some : tokens ≠ [] := by
    intro empty
    rw [empty, attempts_nil] at run
    cases run
  cases read : Stmt.read tokens with
  | error failure =>
    rw [attempts_error some read] at run
    cases run
  | ok pair =>
    rw [attempts_ok read] at run
    obtain ⟨used, rfl, declared⟩ := Stmt.read_ok_iff.mp read
    cases run
    exact ⟨used, pair.2, rfl, declared, rfl⟩

theorem attempts_declared {stmt : Stmt} {tokens : List Token}
    (member : .ok stmt ∈ attempts tokens) :
    ∃ used, Declares used stmt ∧ ∀ token ∈ used, token ∈ tokens := by
  generalize size : tokens.length = count
  induction count using Nat.strongRecOn generalizing tokens with
  | ind count ih =>
    have some : tokens ≠ [] := by
      intro empty
      rw [empty, attempts_nil] at member
      cases member
    rw [attempts_some some] at member
    rcases List.mem_cons.mp member with here | later
    · cases found : Stmt.read tokens with
      | error failure =>
        rw [found] at here
        cases here
      | ok pair =>
        rw [found] at here
        cases here
        obtain ⟨used, rfl, declared⟩ := Stmt.read_ok_iff.mp found
        exact ⟨used, declared, fun token member => List.mem_append_left _ member⟩
    · obtain ⟨used, declared, inside⟩ := ih _ (size ▸ leftover_shorter some) later rfl
      exact ⟨used, declared, fun token member =>
        (leftover_suffix tokens).mem (inside token member)⟩

end Program
end Lox
