import Lox.Proofs.Trial

set_option autoImplicit false

namespace Lox

theorem derives_head {level : Level} {tokens : List Token} {value : Expr}
    (derived : Derives level tokens value) :
    ∃ token rest, tokens = token :: rest ∧ token.kind ≠ .keyword .var ∧
      token.kind ≠ .keyword .print := by
  induction derived with
  | @literal token value kind =>
    refine ⟨token, [], rfl, ?_⟩
    cases value with
    | boolean value => cases value <;> simp [kind, Value.kind]
    | _ => simp [kind, Value.kind]
  | name kind => exact ⟨_, [], rfl, by simp [kind]⟩
  | group opens _ _ _ => exact ⟨_, _, rfl, by simp [opens]⟩
  | sign signs _ _ =>
    refine ⟨_, _, rfl, ?_⟩
    rcases signs with bang | minus
    · simp [bang]
    · simp [minus]
  | operand _ ih => exact ih
  | chain _ _ _ ihLeft _ =>
    obtain ⟨token, rest, whole, other⟩ := ihLeft
    exact ⟨token, _, by rw [whole, List.cons_append], other⟩

namespace Stmt

def readClosed (expected : Expectation) (build : Expr → Stmt) (tokens : List Token) : Reading Stmt :=
  (Expr.read tokens).andThen fun value => close expected (build value)

theorem close_semicolon (expected : Expectation) (stmt : Stmt) {semicolon : Token}
    (ends : semicolon.kind = .mark .semicolon) (rest : List Token) :
    close expected stmt (semicolon :: rest) = .ok (stmt, rest) := by
  rw [close, if_pos (Token.is_mark_iff.mpr ends)]

theorem close_other (expected : Expectation) (stmt : Stmt) {rest : List Token}
    (other : ∀ token, rest.head? = some token → token.kind ≠ .mark .semicolon) :
    close expected stmt rest = .error ⟨expected, rest⟩ := by
  cases rest with
  | nil => rfl
  | cons token rest =>
    rw [close, if_neg]
    intro marked
    exact other token rfl (Token.is_mark_iff.mp marked)

theorem ends_semicolon {semicolon : Token} (ends : semicolon.kind = .mark .semicolon)
    (rest : List Token) : Level.equality.Ends (semicolon :: rest) :=
  Level.ends_other _ rest (by simp [Token.level?, ends, Mark.level?])

theorem read_closed_derived {tokens : List Token} {value : Expr} {semicolon : Token}
    (derived : Derives .equality tokens value) (ends : semicolon.kind = .mark .semicolon)
    (expected : Expectation) (build : Expr → Stmt) (rest : List Token) :
    readClosed expected build (tokens ++ semicolon :: rest) = .ok (build value, rest) := by
  have read := Expr.read_from_derived derived (ends_semicolon ends rest)
  rw [readClosed, Expr.read, read]
  exact close_semicolon expected (build value) ends rest

theorem read_of_var {word : Token} (var : word.kind = .keyword .var) (rest : List Token) :
    read (word :: rest) = readVar rest := by
  rw [read, if_pos (Token.is_keyword_iff.mpr var)]

theorem read_of_print {word : Token} (prints : word.kind = .keyword .print) (rest : List Token) :
    read (word :: rest) = readClosed .valueEnd .print rest := by
  have other : ¬ word.isKeyword .var = true := by simp [Token.isKeyword, prints]
  rw [read, if_neg other, if_pos (Token.is_keyword_iff.mpr prints)]
  rfl

theorem read_of_other {tokens : List Token}
    (other : ∀ token, tokens.head? = some token →
      token.kind ≠ .keyword .var ∧ token.kind ≠ .keyword .print) :
    read tokens = readClosed .expressionEnd .expression tokens := by
  cases tokens with
  | nil => rfl
  | cons token rest =>
    obtain ⟨notVar, notPrint⟩ := other token rfl
    rw [read, if_neg (fun word => notVar (Token.is_keyword_iff.mp word)),
      if_neg (fun word => notPrint (Token.is_keyword_iff.mp word))]
    rfl

theorem read_var_equal {name equal : Token} (named : name.kind = .identifier)
    (equals : equal.kind = .mark .equal) (rest : List Token) :
    readVar (name :: equal :: rest) =
      readClosed .declarationEnd (fun value => .var name (some value)) rest := by
  rw [readVar, if_pos (Token.is_name_iff.mpr named), readInitial,
    if_pos (Token.is_mark_iff.mpr equals), readClosed]
  cases Expr.read rest <;> rfl

theorem read_var_bare {name : Token} (named : name.kind = .identifier) {rest : List Token}
    (other : ∀ token, rest.head? = some token → token.kind ≠ .mark .equal) :
    readVar (name :: rest) = close .declarationEnd (.var name none) rest := by
  rw [readVar, if_pos (Token.is_name_iff.mpr named)]
  cases rest with
  | nil => rfl
  | cons token rest =>
    rw [readInitial, if_neg (fun marked => other token rfl (Token.is_mark_iff.mp marked))]
    rfl

theorem read_var_unnamed {rest : List Token}
    (other : ∀ token, rest.head? = some token → token.kind ≠ .identifier) :
    readVar rest = .error ⟨.variableName, rest⟩ := by
  cases rest with
  | nil => rfl
  | cons name rest =>
    rw [readVar, if_neg (fun named => other name rfl (Token.is_name_iff.mp named))]

theorem read_declared {tokens : List Token} {stmt : Stmt} (declared : Declares tokens stmt)
    (rest : List Token) : read (tokens ++ rest) = .ok (stmt, rest) := by
  cases declared with
  | @bare word name semicolon var named ends =>
    have other : ∀ token, (semicolon :: rest).head? = some token → token.kind ≠ .mark .equal := by
      intro token first
      cases first
      simp [ends]
    change read (word :: name :: semicolon :: rest) = _
    rw [read_of_var var, read_var_bare named other]
    exact close_semicolon _ _ ends rest
  | @initialized word name equal semicolon tokens value var named equals initial ends =>
    have shape : (word :: name :: equal :: (tokens ++ [semicolon])) ++ rest =
        word :: name :: equal :: (tokens ++ semicolon :: rest) := by simp
    rw [shape, read_of_var var, read_var_equal named equals]
    exact read_closed_derived initial ends _ _ rest
  | @print word semicolon tokens value prints inner ends =>
    have shape : (word :: (tokens ++ [semicolon])) ++ rest =
        word :: (tokens ++ semicolon :: rest) := by simp
    rw [shape, read_of_print prints]
    exact read_closed_derived inner ends _ _ rest
  | @expression semicolon tokens value inner ends =>
    obtain ⟨token, more, whole, other⟩ := derives_head inner
    have shape : (tokens ++ [semicolon]) ++ rest = tokens ++ semicolon :: rest := by simp
    rw [shape, read_of_other (by simpa [whole] using other)]
    exact read_closed_derived inner ends _ _ rest

inductive Verdict (accepts : List Token → Stmt → Prop) (read : List Token → Reading Stmt) :
    List Token → Prop where
  | accepted {used rest : List Token} {stmt : Stmt} (whole : accepts used stmt) :
      Verdict accepts read (used ++ rest)
  | misfit {used rest : List Token} {expected : Expectation}
      (begins : ∃ more stmt, accepts (used ++ more) stmt)
      (fails : ∀ after, after.head? = rest.head? → read (used ++ after) = .error ⟨expected, after⟩) :
      Verdict accepts read (used ++ rest)

inductive Closes (build : Expr → Stmt) : List Token → Stmt → Prop where
  | value {semicolon : Token} {tokens : List Token} {value : Expr}
      (inner : Derives .equality tokens value) (ends : semicolon.kind = .mark .semicolon) :
      Closes build (tokens ++ [semicolon]) (build value)

namespace Verdict

theorem after_token {accepts whole : List Token → Stmt → Prop} {read outer : List Token → Reading Stmt}
    {token : Token} {rest : List Token} (enters : ∀ tokens, outer (token :: tokens) = read tokens)
    (widens : ∀ used stmt, accepts used stmt → whole (token :: used) stmt)
    (verdict : Verdict accepts read rest) : Verdict whole outer (token :: rest) := by
  cases verdict with
  | @accepted used rest stmt accepted => exact .accepted (widens used stmt accepted)
  | @misfit used rest expected begins fails =>
    refine @misfit whole outer (token :: used) rest expected ?_ ?_
    · obtain ⟨more, stmt, accepted⟩ := begins
      exact ⟨more, stmt, widens _ stmt accepted⟩
    · intro after same
      rw [List.cons_append, enters]
      exact fails after same

theorem closed (expected : Expectation) (build : Expr → Stmt) (tokens : List Token) :
    Verdict (Closes build) (readClosed expected build) tokens := by
  let mate : Token := ⟨.mark .semicolon, ";", 1⟩
  have admits : Frame.Admits .equality .equality [] := Nat.le_refl _
  have trial := trial .equality tokens
  cases trial with
  | @misfit used rest missing begins fails =>
    refine @misfit _ _ used rest missing ?_ ?_
    · obtain ⟨more, value, derived⟩ := begins
      refine ⟨more ++ [mate], build value, ?_⟩
      have whole : Closes build ((used ++ more) ++ [mate]) (build value) := .value derived rfl
      simpa using whole
    · intro after same
      rw [readClosed, Expr.read, Expr.readFrom, fails .equality [] after same admits]
      rfl
  | @chain used rest value derived ends =>
    rcases next_kind (.mark .semicolon) rest with ⟨semicolon, tail, rfl, closes⟩ | unclosed
    · have whole : Closes build (used ++ [semicolon]) (build value) := .value derived closes
      have verdict : Verdict (Closes build) (readClosed expected build)
          ((used ++ [semicolon]) ++ tail) := .accepted whole
      simpa using verdict
    · refine @misfit _ _ used rest expected ⟨[mate], build value, .value derived rfl⟩ ?_
      intro after same
      have stops : Level.equality.Ends after := Level.ends_head same ends
      rw [readClosed, Expr.read, Expr.read_from_derived derived stops]
      exact close_other expected (build value) (unclosed after same)

theorem after_var {word : Token} (var : word.kind = .keyword .var) (tokens : List Token) :
    Verdict (fun used => Declares (word :: used)) readVar tokens := by
  let mate : Token := ⟨.mark .semicolon, ";", 1⟩
  rcases next_kind .identifier tokens with ⟨name, rest, rfl, named⟩ | unnamed
  · rcases next_kind (.mark .equal) rest with ⟨equal, tail, rfl, equals⟩ | uninitialized
    · have value := closed .declarationEnd (fun value => .var name (some value)) tail
      have initial : Verdict (fun used => Declares (word :: name :: used))
          (fun tokens => readVar (name :: tokens)) (equal :: tail) := by
        apply after_token (fun rest => read_var_equal named equals rest) _ value
        intro used stmt whole
        cases whole with
        | value inner ends => exact .initialized var named equals inner ends
      exact after_token (fun _ => rfl) (fun _ _ declared => declared) initial
    · rcases next_kind (.mark .semicolon) rest with ⟨semicolon, tail, rfl, ends⟩ | unclosed
      · exact @accepted _ _ [name, semicolon] tail _ (.bare var named ends)
      · refine @misfit _ _ [name] rest .declarationEnd ?_ ?_
        · exact ⟨[mate], _, .bare var named rfl⟩
        · intro after same
          rw [List.singleton_append, read_var_bare named (uninitialized after same)]
          exact close_other _ _ (unclosed after same)
  · refine @misfit _ _ [] tokens .variableName ?_ ?_
    · exact ⟨[⟨.identifier, "", 1⟩, mate], _, .bare var rfl rfl⟩
    · intro after same
      exact read_var_unnamed (unnamed after same)

end Verdict

theorem verdict (tokens : List Token) : Verdict Declares read tokens := by
  rcases next_kind (.keyword .var) tokens with ⟨word, rest, rfl, var⟩ | notVar
  · exact Verdict.after_token (read_of_var var) (fun _ _ declared => declared)
      (Verdict.after_var var rest)
  · rcases next_kind (.keyword .print) tokens with ⟨word, rest, rfl, prints⟩ | notPrint
    · refine Verdict.after_token (read_of_print prints) ?_ (Verdict.closed .valueEnd .print rest)
      intro used stmt whole
      cases whole with
      | value inner ends => exact .print prints inner ends
    · have declares (used : List Token) (stmt : Stmt) (whole : Closes .expression used stmt) :
          Declares used stmt := by
        cases whole with
        | value inner ends => exact .expression inner ends
      have value := Verdict.closed .expressionEnd .expression tokens
      cases value with
      | accepted whole => exact .accepted (declares _ _ whole)
      | @misfit used rest expected begins fails =>
        refine @Verdict.misfit _ _ used rest expected ?_ ?_
        · obtain ⟨more, stmt, whole⟩ := begins
          exact ⟨more, stmt, declares _ stmt whole⟩
        · intro after same
          have head : (used ++ after).head? = (used ++ rest).head? := by
            cases used with
            | nil => exact same
            | cons token used => rfl
          rw [read_of_other fun token first =>
            ⟨notVar (used ++ after) head token first, notPrint (used ++ after) head token first⟩]
          exact fails after same

end Stmt
end Lox
