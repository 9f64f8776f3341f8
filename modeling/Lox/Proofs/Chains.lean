import Lox.Proofs.Grammar

set_option autoImplicit false

namespace Lox

def Frame.Admits (floor level : Level) : List Frame → Prop
  | [] => floor.rank ≤ level.rank
  | .group :: _ => True
  | .sign _ :: _ => level = .unary
  | .left _ _ opened :: _ => opened.rank < level.rank

def Level.Ends (level : Level) (rest : List Token) : Prop :=
  ∀ token next, rest.head? = some token → token.Joins next → next.rank < level.rank

namespace Level

theorem ends_other (level : Level) {token : Token} (rest : List Token)
    (other : token.level? = none) : level.Ends (token :: rest) := by
  intro first next same joins
  cases same
  rw [Token.level_iff.mpr joins] at other
  cases other

theorem ends_nil (level : Level) : level.Ends [] := by
  intro token next first
  cases first

theorem ends_head {level : Level} {after rest : List Token} (same : after.head? = rest.head?)
    (ends : level.Ends rest) : level.Ends after := by
  intro token next first
  exact ends token next (same ▸ first)

theorem ends_front {level : Level} {front rest : List Token} (inside : front <+: rest)
    (ends : level.Ends rest) : level.Ends front := by
  obtain ⟨more, rfl⟩ := inside
  cases front with
  | nil => exact level.ends_nil
  | cons token tail => exact ends_head rfl ends

theorem ends_unary (rest : List Token) : Level.unary.Ends rest := by
  intro token next _ joins
  have rank := token.joins_rank joins
  cases next with
  | unary => cases rank
  | _ => decide

theorem ends_mono {a b : Level} {rest : List Token} (loose : a.rank ≤ b.rank) (ends : a.Ends rest) :
    b.Ends rest := fun token next first joins => Nat.lt_of_lt_of_le (ends token next first joins) loose

theorem ends_joins {level : Level} {token : Token} (rest : List Token) (joins : token.Joins level) :
    level.tighter.Ends (token :: rest) := by
  intro first next same also
  cases same
  have one := Token.level_iff.mpr joins
  rw [Token.level_iff.mpr also] at one
  cases one
  rw [token.joins_rank joins]
  exact Nat.lt_succ_self _

theorem ends_loosen {level : Level} {rest : List Token} (ends : level.tighter.Ends rest)
    (none : ∀ token, rest.head? = some token → ¬ token.Joins level) : level.Ends rest := by
  intro token next first joins
  have tight := ends token next first joins
  by_cases same : next.rank = level.rank
  · exact absurd (rank_injective same ▸ joins) (none token first)
  · cases level with
    | unary => exact tight
    | _ => simp only [tighter, rank] at tight same ⊢; omega

end Level

namespace Token

theorem opening_literal {token : Token} {value : Value} (kind : token.kind = value.kind) :
    token.opening? = some (.atom (.literal value)) := by
  rw [opening?, kind]
  cases value with
  | boolean value => cases value <;> rfl
  | _ => rfl

theorem opening_name {token : Token} (kind : token.kind = .identifier) :
    token.opening? = some (.atom (.name token)) := by
  rw [opening?, kind]

theorem opening_paren {token : Token} (kind : token.kind = .mark .leftParen) :
    token.opening? = some .paren := by
  rw [opening?, kind]

theorem opening_sign {token : Token} (signs : token.Signs) : token.opening? = some .sign := by
  rcases signs with bang | minus
  · rw [opening?, bang]
  · rw [opening?, minus]

theorem opening_sound {token : Token} {opening : Opening} (found : token.opening? = some opening) :
    match opening with
    | .sign => token.Signs
    | .paren => token.kind = .mark .leftParen
    | .atom value => Derives .unary [token] value := by
  rw [opening?] at found
  split at found <;> cases found
  · exact .inl ‹_›
  · exact .inr ‹_›
  · assumption
  · exact .name ‹_›
  all_goals exact .literal ‹_›

end Token

namespace Frame

theorem settle_left {level opened : Level} (loose : level.rank ≤ opened.rank) (value operand : Expr)
    (operator : Token) (stack : List Frame) :
    settle level value (.left operand operator opened :: stack) =
      settle level (.binary operand operator value) stack := by
  rw [settle, if_pos loose]

theorem settle_sign (level : Level) (value : Expr) (operator : Token) (stack : List Frame) :
    settle level value (.sign operator :: stack) = settle level (.unary operator value) stack := by
  rw [settle]

theorem settle_group (level : Level) (value : Expr) (stack : List Frame) :
    settle level value (.group :: stack) = (value, .group :: stack) := by
  rw [settle]
  all_goals simp

theorem admits_tighter {floor level : Level} {stack : List Frame} (admits : Admits floor level stack) :
    Admits floor level.tighter stack := by
  have rank := level.tighter_rank
  cases stack with
  | nil => exact Nat.le_trans admits rank
  | cons frame stack =>
    cases frame with
    | group => trivial
    | sign operator =>
      have same : level = .unary := admits
      rw [same]
      rfl
    | left operand operator opened => exact Nat.lt_of_lt_of_le admits rank

theorem settle_admitted {floor level : Level} {token : Token} {stack : List Frame}
    (joins : token.Joins level) (admits : Admits floor level stack) (value : Expr) :
    settle level value stack = (value, stack) := by
  cases stack with
  | nil => rw [settle]; all_goals simp
  | cons frame stack =>
    cases frame with
    | group => exact settle_group level value stack
    | sign operator =>
      have same : level = .unary := admits
      obtain ⟨mark, listed, _⟩ := joins
      rw [same] at listed
      cases listed
    | left operand operator opened =>
      have tight : opened.rank < level.rank := admits
      rw [settle, if_neg (Nat.not_le_of_lt tight)]

end Frame

namespace Expr

theorem read_after_sign (floor : Level) (stack : List Frame) (operator : Token) (value : Expr)
    (rest : List Token) :
    readAfter floor (.sign operator :: stack) value rest =
      readAfter floor stack (.unary operator value) rest := by
  cases rest with
  | nil => simp only [readAfter, Frame.settle_sign]
  | cons token rest => simp only [readAfter, Frame.settle_sign]

theorem read_after_left {level : Level} {rest : List Token} (ends : level.tighter.Ends rest)
    (floor : Level) (stack : List Frame) (operand : Expr) {operator : Token} (joins : operator.Joins level)
    (value : Expr) :
    readAfter floor (.left operand operator level :: stack) value rest =
      readAfter floor stack (.binary operand operator value) rest := by
  have loosest : Level.equality.rank ≤ level.rank := Nat.zero_le _
  cases rest with
  | nil => simp only [readAfter, Frame.settle_left loosest]
  | cons token rest =>
    rw [readAfter, readAfter]
    cases found : token.level? with
    | none => simp only [Frame.settle_left loosest]
    | some next =>
      have tight := ends token next rfl (Token.level_iff.mp found)
      rw [operator.joins_rank joins] at tight
      simp only [Frame.settle_left (Nat.le_of_lt_succ tight)]

theorem read_after_join {floor level : Level} {stack : List Frame} {operator : Token}
    (joins : operator.Joins level) (admits : Frame.Admits floor level stack) (value : Expr)
    (rest : List Token) :
    readAfter floor stack value (operator :: rest) =
      readOperand floor (.left value operator level :: stack) rest := by
  rw [readAfter, Token.level_iff.mpr joins]
  simp only [Frame.settle_admitted joins admits]
  cases stack with
  | nil =>
    have loose : floor.rank ≤ level.rank := admits
    simp only [if_neg (Nat.not_lt_of_le loose)]
  | cons frame stack => rfl

theorem read_after_close (floor : Level) (stack : List Frame) (value : Expr) {closing : Token}
    (closes : closing.kind = .mark .rightParen) (rest : List Token) :
    readAfter floor (.group :: stack) value (closing :: rest) =
      readAfter floor stack (.group value) rest := by
  have none : closing.level? = none := by simp [Token.level?, closes, Mark.level?]
  have marked : closing.isMark .rightParen = true := Token.is_mark_iff.mpr closes
  rw [readAfter, none]
  simp only [Frame.settle_group, marked, if_true]

theorem level_none_of_ends {token : Token} {rest : List Token}
    (ends : Level.equality.Ends (token :: rest)) : token.level? = none := by
  cases found : token.level? with
  | none => rfl
  | some next => exact absurd (ends token next rfl (Token.level_iff.mp found)) (Nat.not_lt_zero _)

theorem read_after_unclosed (floor : Level) (stack : List Frame) (value : Expr) {rest : List Token}
    (ends : Level.equality.Ends rest)
    (unclosed : ∀ token, rest.head? = some token → token.kind ≠ .mark .rightParen) :
    readAfter floor (.group :: stack) value rest = .error ⟨.closingParen, rest⟩ := by
  cases rest with
  | nil => simp only [readAfter, Frame.settle_group]
  | cons token rest =>
    have other : ¬ token.isMark .rightParen = true := fun marked =>
      unclosed token rfl (Token.is_mark_iff.mp marked)
    rw [readAfter, level_none_of_ends ends]
    simp only [Frame.settle_group, if_neg other]

theorem read_after_done {floor : Level} {rest : List Token} (ends : floor.Ends rest) (value : Expr) :
    readAfter floor [] value rest = .ok (value, rest) := by
  have empty (level : Level) : Frame.settle level value [] = (value, []) := by
    rw [Frame.settle]
    all_goals simp
  cases rest with
  | nil => simp only [readAfter, empty]
  | cons token rest =>
    rw [readAfter]
    cases found : token.level? with
    | none => simp only [empty]
    | some next => simp only [empty, if_pos (ends token next rfl (Token.level_iff.mp found))]

-- The tree of a derivation is read in one step, over whatever is open before it.
theorem read_operand_derived {level : Level} {tokens : List Token} {value : Expr}
    (derived : Derives level tokens value) :
    ∀ {floor : Level} {stack : List Frame} {rest : List Token},
      Frame.Admits floor level stack → level.tighter.Ends rest →
      readOperand floor stack (tokens ++ rest) = readAfter floor stack value rest := by
  induction derived with
  | literal kind =>
    intro floor stack rest _ _
    simp only [List.singleton_append, readOperand, Token.opening_literal kind]
  | name kind =>
    intro floor stack rest _ _
    simp only [List.singleton_append, readOperand, Token.opening_name kind]
  | @group opening closing tokens value opens _ closes ih =>
    intro floor stack rest _ _
    have closed : Level.Ends Level.equality.tighter (closing :: rest) :=
      Level.ends_other _ rest (by simp [Token.level?, closes, Mark.level?])
    calc readOperand floor stack (opening :: (tokens ++ [closing]) ++ rest)
        = readOperand floor (.group :: stack) (tokens ++ closing :: rest) := by
          simp [readOperand, Token.opening_paren opens]
      _ = readAfter floor (.group :: stack) value (closing :: rest) := ih trivial closed
      _ = readAfter floor stack (.group value) rest := read_after_close floor stack value closes rest
  | @sign operator tokens value signs _ ih =>
    intro floor stack rest _ _
    calc readOperand floor stack (operator :: tokens ++ rest)
        = readOperand floor (.sign operator :: stack) (tokens ++ rest) := by
          simp [readOperand, Token.opening_sign signs]
      _ = readAfter floor (.sign operator :: stack) value rest := ih rfl (Level.ends_unary rest)
      _ = readAfter floor stack (.unary operator value) rest := read_after_sign ..
  | @operand level tokens value _ ih =>
    intro floor stack rest admits ends
    exact ih (Frame.admits_tighter admits) (Level.ends_mono (Level.tighter_rank _) ends)
  | @chain level operator before after left right _ joins _ ihLeft ihRight =>
    intro floor stack rest admits ends
    have deeper : Frame.Admits floor level.tighter (.left left operator level :: stack) := by
      have rank := operator.joins_rank joins
      change level.rank < level.tighter.rank
      omega
    calc readOperand floor stack ((before ++ operator :: after) ++ rest)
        = readOperand floor stack (before ++ operator :: (after ++ rest)) := by simp
      _ = readAfter floor stack left (operator :: (after ++ rest)) :=
          ihLeft admits (Level.ends_joins _ joins)
      _ = readOperand floor (.left left operator level :: stack) (after ++ rest) :=
          read_after_join joins admits left _
      _ = readAfter floor (.left left operator level :: stack) right rest :=
          ihRight deeper (Level.ends_mono (Level.tighter_rank _) ends)
      _ = readAfter floor stack (.binary left operator right) rest :=
          read_after_left ends floor stack left joins right

end Expr
end Lox
