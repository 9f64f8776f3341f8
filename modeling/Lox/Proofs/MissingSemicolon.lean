import Lox.Proofs.Pieces

set_option autoImplicit false

namespace Lox

def Stmt.ending : Stmt → Expectation
  | .expression _ => .expressionEnd
  | .print _ => .valueEnd
  | .var _ _ => .declarationEnd

def Token.Inner (token : Token) : Prop :=
  token.kind ≠ .mark .semicolon ∧ token.startsStatement = false

theorem expresses_inner {token : Token} (expresses : token.kind.expresses = true) : token.Inner := by
  rw [Token.Inner, Token.startsStatement]
  revert expresses
  cases token.kind with
  | mark mark => cases mark <;> simp [TokenKind.expresses, Mark.level?]
  | keyword word => cases word <;> simp [TokenKind.expresses]
  | _ => simp

theorem derives_inner {level : Level} {tokens : List Token} {value : Expr}
    (derived : Derives level tokens value) : ∀ token ∈ tokens, token.Inner :=
  fun token member => expresses_inner (derives_expresses derived token member)

theorem declares_inner {tokens : List Token} {stmt : Stmt} (declared : Declares tokens stmt) :
    ∃ first inside semicolon, tokens = first :: (inside ++ [semicolon]) ∧
      semicolon.kind = .mark .semicolon ∧ first.kind ≠ .mark .semicolon ∧
      ∀ token ∈ inside, token.Inner := by
  have named_inner {name : Token} (named : name.kind = .identifier) : name.Inner :=
    expresses_inner (by rw [named]; rfl)
  cases declared with
  | @bare word name semicolon var named ends =>
    refine ⟨word, [name], semicolon, rfl, ends, by simp [var], ?_⟩
    rw [List.forall_mem_singleton]
    exact named_inner named
  | @initialized word name equal semicolon tokens value var named equals initial ends =>
    refine ⟨word, name :: equal :: tokens, semicolon, rfl, ends, by simp [var], ?_⟩
    rw [List.forall_mem_cons, List.forall_mem_cons]
    exact ⟨named_inner named, by simp [Token.Inner, Token.startsStatement, equals], derives_inner initial⟩
  | @print word semicolon tokens value prints inner ends =>
    exact ⟨word, tokens, semicolon, rfl, ends, by simp [prints], derives_inner inner⟩
  | @expression semicolon tokens value inner ends =>
    obtain ⟨token, more, rfl, _⟩ := derives_head inner
    obtain ⟨here, later⟩ := List.forall_mem_cons.mp (derives_inner inner)
    exact ⟨token, more, semicolon, rfl, ends, here.1, later⟩

namespace Stmt

theorem close_word (expected : Expectation) (stmt : Stmt) {word : Token} {keyword : Keyword}
    (spelled : word.kind = .keyword keyword) (rest : List Token) :
    close expected stmt (word :: rest) = .error ⟨expected, word :: rest⟩ := by
  apply close_other
  intro token first
  cases first
  simp [spelled]

theorem read_closed_word {tokens : List Token} {value : Expr} {word : Token} {keyword : Keyword}
    (derived : Derives .equality tokens value) (spelled : word.kind = .keyword keyword)
    (expected : Expectation) (build : Expr → Stmt) (rest : List Token) :
    readClosed expected build (tokens ++ word :: rest) = .error ⟨expected, word :: rest⟩ := by
  have stops : Level.equality.Ends (word :: rest) :=
    Level.ends_other _ rest (by simp [Token.level?, spelled])
  have read := Expr.read_from_derived derived stops
  rw [readClosed, Expr.read, read]
  exact close_word expected (build value) spelled rest

theorem read_unclosed {front : List Token} {semicolon : Token} {stmt : Stmt}
    (declared : Declares (front ++ [semicolon]) stmt) {word : Token} {keyword : Keyword}
    (spelled : word.kind = .keyword keyword) (rest : List Token) :
    read (front ++ word :: rest) = .error ⟨stmt.ending, word :: rest⟩ := by
  generalize whole : front ++ [semicolon] = tokens at declared
  cases declared with
  | @bare var name last isVar named ends =>
    obtain ⟨rfl, _⟩ := List.append_inj' (show front ++ [semicolon] = [var, name] ++ [last] from whole) rfl
    have other : ∀ token, (word :: rest).head? = some token → token.kind ≠ .mark .equal := by
      intro token first
      cases first
      simp [spelled]
    change read (var :: name :: word :: rest) = _
    rw [read_of_var isVar, read_var_bare named other]
    exact close_word _ _ spelled rest
  | @initialized var name equal last inside value isVar named equals initial ends =>
    obtain ⟨rfl, _⟩ := List.append_inj'
      (show front ++ [semicolon] = (var :: name :: equal :: inside) ++ [last] from whole) rfl
    change read (var :: name :: equal :: (inside ++ word :: rest)) = _
    rw [read_of_var isVar, read_var_equal named equals]
    exact read_closed_word initial spelled _ _ rest
  | @print print last inside value prints inner ends =>
    obtain ⟨rfl, _⟩ := List.append_inj'
      (show front ++ [semicolon] = (print :: inside) ++ [last] from whole) rfl
    rw [List.cons_append, read_of_print prints]
    exact read_closed_word inner spelled _ _ rest
  | @expression last inside value inner ends =>
    obtain ⟨rfl, _⟩ := List.append_inj' whole rfl
    obtain ⟨token, more, split, other⟩ := derives_head inner
    rw [read_of_other (by simpa [split] using other)]
    exact read_closed_word inner spelled _ _ rest

end Stmt

namespace Program

theorem resume_pass {token next : Token} (other : token.kind ≠ .mark .semicolon)
    (goes : next.startsStatement = false) (rest : List Token) :
    resume (token :: next :: rest) = resume (next :: rest) := by
  have passes : ¬ (token.isMark .semicolon || next.startsStatement) = true := by
    rw [goes, Bool.or_false, Token.is_mark_iff]
    exact other
  rw [resume, List.head?_cons, Option.any_some, if_neg passes]

theorem resume_inner {inside : List Token} {semicolon : Token} (rest : List Token)
    (ends : semicolon.kind = .mark .semicolon) (inner : ∀ token ∈ inside, token.Inner) :
    ∀ first : Token, first.kind ≠ .mark .semicolon →
      resume (first :: (inside ++ semicolon :: rest)) = rest := by
  induction inside with
  | nil =>
    intro first other
    have goes : semicolon.startsStatement = false := by simp [Token.startsStatement, ends]
    have marked : semicolon.isMark .semicolon = true := Token.is_mark_iff.mpr ends
    rw [List.nil_append, resume_pass other goes, resume, marked, Bool.true_or, if_pos rfl]
  | cons token inside ih =>
    intro first other
    obtain ⟨here, later⟩ := List.forall_mem_cons.mp inner
    rw [List.cons_append, resume_pass other here.2]
    exact ih later token here.1

-- The first token is dropped whatever it is, and then all that is left of the declaration.
theorem resume_declared {tokens : List Token} {stmt : Stmt} (declared : Declares tokens stmt)
    (rest : List Token) : resume (tokens ++ rest) = rest := by
  obtain ⟨first, inside, semicolon, rfl, ends, other, inner⟩ := declares_inner declared
  have shape : (first :: (inside ++ [semicolon])) ++ rest =
      first :: (inside ++ semicolon :: rest) := by simp
  rw [shape]
  exact resume_inner rest ends inner first other

theorem read_before_end {tokens : List Token} {last : Token}
    (inside : ∀ token ∈ tokens, token.kind ≠ .eof) (ended : last.isEnd = true) :
    read (tokens ++ [last]) =
      ⟨(attempts tokens).filterMap stmt?, (attempts tokens).filterMap (diagnostic? last)⟩ := by
  have found : (tokens ++ [last]).find? Token.isEnd = some last := by
    rw [find_end_past inside, List.find?_singleton, if_pos ended]
  rw [read_ended found, body_append inside ended]

def Sound (tokens : List Token) (stmts : List Stmt) : Prop :=
  (∀ token ∈ tokens, token.kind ≠ .eof) ∧
    ∃ last : Token, last.isEnd = true ∧ read (tokens ++ [last]) = ⟨stmts, []⟩

theorem sound_attempts {tokens : List Token} {stmts : List Stmt} (sound : Sound tokens stmts) :
    attempts tokens = stmts.map .ok := by
  obtain ⟨inside, last, ended, reads⟩ := sound
  rw [read_before_end inside ended, Program.mk.injEq] at reads
  exact (all_accepted_iff last).mp reads

theorem missing_semicolon {before unclosed after : List Token} {kept stmts : List Stmt}
    {stmt : Stmt} {semicolon word last : Token}
    (soundBefore : Sound before kept) (soundAfter : Sound after stmts)
    (declared : Declares (unclosed ++ [semicolon]) stmt) (first : after.head? = some word)
    (starts : word.kind = .keyword .var ∨ word.kind = .keyword .print) (ended : last.isEnd = true) :
    ∃ lost later, stmts = lost :: later ∧
      read (before ++ unclosed ++ after ++ [last]) =
        ⟨kept ++ later, [.parseAt word stmt.ending.message]⟩ := by
  obtain ⟨keyword, spelled⟩ : ∃ keyword, word.kind = .keyword keyword := by
    rcases starts with var | print
    · exact ⟨_, var⟩
    · exact ⟨_, print⟩
  obtain ⟨rest, rfl⟩ : ∃ rest, after = word :: rest := List.head?_eq_some_iff.mp first
  have runBefore := sound_attempts soundBefore
  have runAfter := sound_attempts soundAfter
  have failed := Stmt.read_unclosed declared spelled rest
  cases stmts with
  | nil =>
    rw [attempts_some (by simp)] at runAfter
    cases runAfter
  | cons lost later =>
    obtain ⟨used, others, split, whole, runLater⟩ := attempts_cons runAfter
    have run : attempts (before ++ unclosed ++ word :: rest) =
        kept.map .ok ++ .error ⟨stmt.ending, word :: rest⟩ :: later.map .ok := by
      rw [List.append_assoc, attempts_append runBefore, runBefore, attempts_error (by simp) failed,
        split, resume_declared whole, runLater]
    have inside : ∀ token ∈ before ++ unclosed ++ word :: rest, token.kind ≠ .eof := by
      have insideUnclosed := (List.forall_mem_append.mp (declares_no_end declared)).1
      simpa only [List.forall_mem_append] using ⟨⟨soundBefore.1, insideUnclosed⟩, soundAfter.1⟩
    have accepted (found : List Stmt) : (found.map .ok).filterMap stmt? = found ∧
        (found.map .ok).filterMap (diagnostic? last) = [] := (all_accepted_iff last).mpr rfl
    refine ⟨lost, later, rfl, ?_⟩
    rw [read_before_end inside ended, run, List.filterMap_append, List.filterMap_append,
      List.filterMap_cons, List.filterMap_cons, (accepted kept).1, (accepted kept).2,
      (accepted later).1, (accepted later).2]
    rfl

def printing (word : Keyword) : List Token :=
  [⟨.keyword .print, "print", 1⟩, ⟨.keyword word, word.spelling, 1⟩]

def closing : Token := ⟨.mark .semicolon, ";", 1⟩

-- `print nil; print false print true; print nil;` lacks a semicolon between these two parts.
def opened : List Token := printing .nil ++ [closing]

def trailing : List Token := printing .true ++ [closing] ++ printing .nil ++ [closing]

theorem sound_opened : Sound opened [.print (.literal .nil)] :=
  ⟨by simp [opened, printing, closing], .atEnd 1, rfl, by with_unfolding_all rfl⟩

theorem sound_trailing :
    Sound trailing [.print (.literal (.boolean true)), .print (.literal .nil)] :=
  ⟨by simp [trailing, printing, closing], .atEnd 1, rfl, by with_unfolding_all rfl⟩

theorem declares_printing :
    Declares (printing .false ++ [closing]) (.print (.literal (.boolean false))) :=
  .print rfl (derives_loosen (by decide) (.literal rfl)) rfl

theorem missing_semicolon_printing :
    (Sound opened [.print (.literal .nil)] ∧
      Sound trailing [.print (.literal (.boolean true)), .print (.literal .nil)] ∧
      Declares (printing .false ++ [closing]) (.print (.literal (.boolean false))) ∧
      trailing.head? = some ⟨.keyword .print, "print", 1⟩ ∧ (Token.atEnd 1).isEnd = true) ∧
    ∃ lost later,
      [.print (.literal (.boolean true)), .print (.literal .nil)] = lost :: later ∧
      read (opened ++ printing .false ++ trailing ++ [.atEnd 1]) =
        ⟨[.print (.literal .nil)] ++ later,
          [.parseAt ⟨.keyword .print, "print", 1⟩ (Expectation.message .valueEnd)]⟩ :=
  ⟨⟨sound_opened, sound_trailing, declares_printing, rfl, rfl⟩,
    missing_semicolon sound_opened sound_trailing declares_printing rfl (.inr rfl) rfl⟩

theorem missing_semicolon_loses :
    ¬ ∀ (before unclosed after : List Token) (kept stmts : List Stmt) (stmt : Stmt)
        (semicolon word last : Token),
      Sound before kept → Sound after stmts → Declares (unclosed ++ [semicolon]) stmt →
      after.head? = some word → (word.kind = .keyword .var ∨ word.kind = .keyword .print) →
      last.isEnd = true → ∃ message,
        read (before ++ unclosed ++ after ++ [last]) = ⟨kept ++ stmts, [.parseAt word message]⟩ := by
  intro keeps
  obtain ⟨message, reads⟩ := keeps opened (printing .false) trailing _ _ _ closing _ (.atEnd 1)
    sound_opened sound_trailing declares_printing rfl (.inr rfl) rfl
  have count : (read (opened ++ printing .false ++ trailing ++ [.atEnd 1])).statements.length = 2 := by
    with_unfolding_all rfl
  rw [reads] at count
  cases count

end Program
end Lox
