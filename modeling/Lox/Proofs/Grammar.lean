import Lox.Program

set_option autoImplicit false

namespace Lox

def Level.operators : Level → List Mark
  | .equality => [.bangEqual, .equalEqual]
  | .comparison => [.greater, .greaterEqual, .less, .lessEqual]
  | .term => [.minus, .plus]
  | .factor => [.slash, .star]
  | .unary => []

def Level.tighter : Level → Level
  | .equality => .comparison
  | .comparison => .term
  | .term => .factor
  | .factor => .unary
  | .unary => .unary

def Token.Joins (level : Level) (token : Token) : Prop :=
  ∃ mark ∈ level.operators, token.kind = .mark mark

def Token.Signs (token : Token) : Prop :=
  token.kind = .mark .bang ∨ token.kind = .mark .minus

def Value.kind : Value → TokenKind
  | .nil => .keyword .nil
  | .boolean true => .keyword .true
  | .boolean false => .keyword .false
  | .number value => .number value
  | .string value => .string value

def TokenKind.expresses : TokenKind → Bool
  | .mark .leftParen | .mark .rightParen | .mark .bang => true
  | .mark m => m.level?.isSome
  | .keyword .true | .keyword .false | .keyword .nil => true
  | .identifier | .string _ | .number _ => true
  | _ => false

-- A chain takes one more operand on its right, so chains lean to the left.
inductive Derives : Level → List Token → Expr → Prop where
  | literal {token : Token} {value : Value} (kind : token.kind = value.kind) :
      Derives .unary [token] (.literal value)
  | name {token : Token} (kind : token.kind = .identifier) : Derives .unary [token] (.name token)
  | group {opening closing : Token} {tokens : List Token} {value : Expr}
      (opens : opening.kind = .mark .leftParen) (inner : Derives .equality tokens value)
      (closes : closing.kind = .mark .rightParen) :
      Derives .unary (opening :: (tokens ++ [closing])) (.group value)
  | sign {operator : Token} {tokens : List Token} {value : Expr}
      (signs : operator.Signs) (operand : Derives .unary tokens value) :
      Derives .unary (operator :: tokens) (.unary operator value)
  | operand {level : Level} {tokens : List Token} {value : Expr}
      (inner : Derives level.tighter tokens value) : Derives level tokens value
  | chain {level : Level} {operator : Token} {before after : List Token} {left right : Expr}
      (head : Derives level before left) (joins : operator.Joins level)
      (last : Derives level.tighter after right) :
      Derives level (before ++ operator :: after) (.binary left operator right)

inductive Declares : List Token → Stmt → Prop where
  | bare {word name semicolon : Token}
      (var : word.kind = .keyword .var) (named : name.kind = .identifier)
      (ends : semicolon.kind = .mark .semicolon) :
      Declares [word, name, semicolon] (.var name none)
  | initialized {word name equal semicolon : Token} {tokens : List Token} {value : Expr}
      (var : word.kind = .keyword .var) (named : name.kind = .identifier)
      (equals : equal.kind = .mark .equal) (initial : Derives .equality tokens value)
      (ends : semicolon.kind = .mark .semicolon) :
      Declares (word :: name :: equal :: (tokens ++ [semicolon])) (.var name (some value))
  | print {word semicolon : Token} {tokens : List Token} {value : Expr}
      (prints : word.kind = .keyword .print) (inner : Derives .equality tokens value)
      (ends : semicolon.kind = .mark .semicolon) :
      Declares (word :: (tokens ++ [semicolon])) (.print value)
  | expression {semicolon : Token} {tokens : List Token} {value : Expr}
      (inner : Derives .equality tokens value) (ends : semicolon.kind = .mark .semicolon) :
      Declares (tokens ++ [semicolon]) (.expression value)

def Level.Begins (level : Level) (tokens : List Token) : Prop :=
  ∃ more value, Derives level (tokens ++ more) value

def Declaration (tokens : List Token) : Prop := ∃ stmt, Declares tokens stmt

def BeginsDeclaration (tokens : List Token) : Prop := ∃ more, Declaration (tokens ++ more)

theorem begins_of_append {a b : List Token} (begins : BeginsDeclaration (a ++ b)) :
    BeginsDeclaration a := by
  obtain ⟨more, whole⟩ := begins
  exact ⟨b ++ more, by simpa using whole⟩

namespace Token

theorem level_iff {token : Token} {level : Level} :
    token.level? = some level ↔ token.Joins level := by
  have table : ∀ mark : Mark, mark.level? = some level ↔ mark ∈ level.operators := by
    intro mark
    cases level <;> cases mark <;> decide
  rw [Token.level?, Token.Joins]
  cases token.kind with
  | mark mark => simpa using table mark
  | _ => simp

theorem joins_rank {token : Token} {level : Level} (joins : token.Joins level) :
    level.tighter.rank = level.rank + 1 := by
  obtain ⟨mark, listed, _⟩ := joins
  cases level with
  | unary => cases listed
  | _ => rfl

theorem is_mark_iff {token : Token} {mark : Mark} :
    token.isMark mark = true ↔ token.kind = .mark mark := by
  rw [Token.isMark]
  cases token.kind <;> simp

theorem is_keyword_iff {token : Token} {word : Keyword} :
    token.isKeyword word = true ↔ token.kind = .keyword word := by
  rw [Token.isKeyword]
  cases token.kind <;> simp

theorem is_name_iff {token : Token} : token.isName = true ↔ token.kind = .identifier := by
  rw [Token.isName]
  cases token.kind <;> simp

theorem is_end_iff {token : Token} : token.isEnd = true ↔ token.kind = .eof := by
  rw [Token.isEnd]
  cases token.kind <;> simp

end Token

namespace Level

theorem tighter_rank (level : Level) : level.rank ≤ level.tighter.rank := by
  cases level <;> decide

theorem rank_injective {a b : Level} (same : a.rank = b.rank) : a = b := by
  cases a <;> cases b <;> cases same <;> rfl

theorem tighter_rank_lt {a b : Level} (loose : a.rank < b.rank) : a.tighter.rank = a.rank + 1 := by
  cases a with
  | unary => cases b <;> simp [rank] at loose
  | _ => rfl

end Level

theorem derives_loosen {a b : Level} {tokens : List Token} {value : Expr} (loose : a.rank ≤ b.rank)
    (derived : Derives b tokens value) : Derives a tokens value := by
  obtain ⟨gap, size⟩ := Nat.exists_eq_add_of_le loose
  induction gap generalizing a with
  | zero => exact Level.rank_injective size ▸ derived
  | succ gap ih =>
    have next := Level.tighter_rank_lt (show a.rank < b.rank by omega)
    exact .operand (ih (by omega) (by omega))

theorem next_kind (kind : TokenKind) (rest : List Token) :
    (∃ token tail, rest = token :: tail ∧ token.kind = kind) ∨
      ∀ after : List Token, after.head? = rest.head? →
        ∀ token, after.head? = some token → token.kind ≠ kind := by
  by_cases next : ∃ token tail, rest = token :: tail ∧ token.kind = kind
  · exact .inl next
  · refine .inr ?_
    intro after same token first equal
    cases rest with
    | nil => simp [same] at first
    | cons head tail =>
      have only : head = token := by simpa [same] using first
      exact next ⟨head, tail, rfl, only ▸ equal⟩

theorem derives_expresses {level : Level} {tokens : List Token} {value : Expr}
    (derived : Derives level tokens value) : ∀ token ∈ tokens, token.kind.expresses = true := by
  have joined (level : Level) : ∀ mark ∈ level.operators, (TokenKind.mark mark).expresses = true := by
    cases level <;> decide
  induction derived with
  | @literal token value kind =>
    rw [List.forall_mem_singleton, kind]
    cases value with
    | boolean value => cases value <;> rfl
    | _ => rfl
  | name kind => rw [List.forall_mem_singleton, kind]; rfl
  | group opens _ closes ih =>
    have ends := List.forall_mem_append.mpr ⟨ih, List.forall_mem_singleton.mpr (by rw [closes]; rfl)⟩
    exact List.forall_mem_cons.mpr ⟨by rw [opens]; rfl, ends⟩
  | sign signs _ ih =>
    refine List.forall_mem_cons.mpr ⟨?_, ih⟩
    rcases signs with bang | minus
    · rw [bang]; rfl
    · rw [minus]; rfl
  | operand _ ih => exact ih
  | chain _ joins _ ihLeft ihRight =>
    obtain ⟨mark, listed, kind⟩ := joins
    refine List.forall_mem_append.mpr ⟨ihLeft, List.forall_mem_cons.mpr ⟨?_, ihRight⟩⟩
    rw [kind]
    exact joined _ mark listed

theorem derives_no_end {level : Level} {tokens : List Token} {value : Expr}
    (derived : Derives level tokens value) : ∀ token ∈ tokens, token.kind ≠ .eof := by
  intro token member ends
  have expresses := derives_expresses derived token member
  rw [ends] at expresses
  cases expresses

theorem declares_no_end {tokens : List Token} {stmt : Stmt} (declared : Declares tokens stmt) :
    ∀ token ∈ tokens, token.kind ≠ .eof := by
  cases declared with
  | bare var named ends => simp [var, named, ends]
  | initialized var named equals initial ends =>
    simpa [var, named, equals, ends, or_imp, forall_and] using derives_no_end initial
  | print prints inner ends =>
    simpa [prints, ends, or_imp, forall_and] using derives_no_end inner
  | expression inner ends => simpa [ends, or_imp, forall_and] using derives_no_end inner

end Lox
