import Lox.Proofs.Chains

set_option autoImplicit false

namespace Lox

inductive Trial (level : Level) : List Token → Prop where
  | chain {used rest : List Token} {value : Expr} (derived : Derives level used value)
      (ends : level.Ends rest) : Trial level (used ++ rest)
  | misfit {used rest : List Token} {expected : Expectation} (begins : level.Begins used)
      (fails : ∀ floor stack after, after.head? = rest.head? → Frame.Admits floor level stack →
        Expr.readOperand floor stack (used ++ after) = .error ⟨expected, after⟩) :
      Trial level (used ++ rest)

namespace Trial

theorem begins_nil (level : Level) : level.Begins [] := by
  have atom : Derives .unary [⟨.identifier, "", 1⟩] (.name ⟨.identifier, "", 1⟩) := .name rfl
  exact ⟨_, _, derives_loosen (by cases level <;> decide) atom⟩

theorem extend {level : Level} {bound : Nat}
    (operand : ∀ tokens : List Token, tokens.length ≤ bound → Trial level.tighter tokens)
    (rest : List Token) (short : rest.length ≤ bound) :
    ∀ {used : List Token} {value : Expr}, Derives level used value → level.tighter.Ends rest →
      Trial level (used ++ rest) := by
  generalize size : rest.length = count
  induction count using Nat.strongRecOn generalizing rest with
  | ind count ih =>
    intro used value derived ends
    by_cases joined : ∃ operator tail, rest = operator :: tail ∧ operator.Joins level
    · obtain ⟨operator, tail, rfl, joins⟩ := joined
      have less : tail.length < count := by simp [← size]
      have trial := operand tail (by omega)
      cases trial with
      | @chain after rest right last stops =>
        have longer := Derives.chain derived joins last
        have shorter : rest.length < count := by simp at less; omega
        simpa using ih rest.length shorter rest (by omega) rfl longer stops
      | @misfit after rest expected begins fails =>
        have whole : used ++ operator :: (after ++ rest) = (used ++ operator :: after) ++ rest := by simp
        rw [whole]
        refine @misfit _ (used ++ operator :: after) rest expected ?_ ?_
        · obtain ⟨more, right, last⟩ := begins
          exact ⟨more, _, by simpa using Derives.chain derived joins last⟩
        · intro floor stack later same admits
          have deeper : Frame.Admits floor level.tighter (.left value operator level :: stack) := by
            have rank := operator.joins_rank joins
            change level.rank < level.tighter.rank
            omega
          have read := Expr.read_operand_derived derived admits
            (Level.ends_joins (after ++ later) joins)
          rw [List.append_assoc, List.cons_append, read, Expr.read_after_join joins admits]
          exact fails floor _ later same deeper
    · refine .chain derived (Level.ends_loosen ends ?_)
      intro token first joins
      cases rest with
      | nil => cases first
      | cons operator tail =>
        cases first
        exact joined ⟨_, tail, rfl, joins⟩

theorem loosen {level : Level} {bound : Nat}
    (operand : ∀ tokens : List Token, tokens.length ≤ bound → Trial level.tighter tokens) :
    ∀ tokens : List Token, tokens.length ≤ bound → Trial level tokens := by
  intro tokens short
  have trial := operand tokens short
  cases trial with
  | @chain used rest value derived ends =>
    exact extend operand rest (by simp at short; omega) (.operand derived) ends
  | @misfit used rest expected begins fails =>
    refine @misfit _ used rest expected ?_ ?_
    · obtain ⟨more, value, derived⟩ := begins
      exact ⟨more, value, .operand derived⟩
    · intro floor stack after same admits
      exact fails floor stack after same (Frame.admits_tighter admits)

theorem sign {operator : Token} {rest : List Token} (signs : operator.Signs)
    (operand : Trial .unary rest) : Trial .unary (operator :: rest) := by
  cases operand with
  | @chain used rest value derived ends => exact .chain (Derives.sign signs derived) ends
  | @misfit used rest expected begins fails =>
    refine @misfit _ (operator :: used) rest expected ?_ ?_
    · obtain ⟨more, value, derived⟩ := begins
      exact ⟨more, _, .sign signs derived⟩
    · intro floor stack after same _
      rw [List.cons_append, Expr.readOperand, Token.opening_sign signs]
      exact fails floor _ after same rfl

theorem group {opening : Token} {rest : List Token} (opens : opening.kind = .mark .leftParen)
    (inner : Trial .equality rest) : Trial .unary (opening :: rest) := by
  have entered (floor : Level) (stack : List Frame) (tokens : List Token) :
      Expr.readOperand floor stack (opening :: tokens) =
        Expr.readOperand floor (.group :: stack) tokens := by
    rw [Expr.readOperand, Token.opening_paren opens]
  let mate : Token := ⟨.mark .rightParen, ")", 1⟩
  cases inner with
  | @misfit used rest expected begins fails =>
    refine @misfit _ (opening :: used) rest expected ?_ ?_
    · obtain ⟨more, value, derived⟩ := begins
      have closes : mate.kind = .mark .rightParen := rfl
      exact ⟨more ++ [mate], _, by simpa using Derives.group opens derived closes⟩
    · intro floor stack after same _
      rw [List.cons_append, entered]
      exact fails floor _ after same trivial
  | @chain used rest value derived ends =>
    rcases next_kind (.mark .rightParen) rest with ⟨closing, tail, rfl, closes⟩ | unclosed
    · have whole := Derives.group opens derived closes
      simpa using Trial.chain whole (Level.ends_unary tail)
    · refine @misfit _ (opening :: used) rest .closingParen ?_ ?_
      · refine ⟨[mate], .group value, ?_⟩
        exact .group opens derived rfl
      · intro floor stack after same _
        have stops : Level.Ends .equality after := Level.ends_head same ends
        have admits : Frame.Admits floor .equality (.group :: stack) := trivial
        have read := Expr.read_operand_derived derived admits
          (Level.ends_mono (Level.tighter_rank _) stops)
        rw [List.cons_append, entered, read]
        exact Expr.read_after_unclosed floor stack value stops (unclosed after same)

-- One operand, when shorter lists have been tried at the two levels that it can enter.
theorem unary {tokens : List Token}
    (shorter : ∀ level rest, rest.length < tokens.length → Trial level rest) :
    Trial .unary tokens := by
  have missing (rest : List Token)
      (fails : ∀ floor stack after, after.head? = rest.head? →
        Expr.readOperand floor stack after = .error ⟨.expression, after⟩) : Trial .unary rest :=
    @misfit _ [] rest .expression (begins_nil .unary) fun floor stack after same _ =>
      fails floor stack after same
  cases tokens with
  | nil =>
    apply missing
    intro floor stack after same
    have empty : after = [] := by simpa using same
    rw [empty, Expr.readOperand]
  | cons token rest =>
    cases found : token.opening? with
    | none =>
      apply missing
      intro floor stack after same
      cases after with
      | nil => cases same
      | cons first tail =>
        have equal : first = token := by simpa using same
        rw [Expr.readOperand, equal, found]
    | some opening =>
      have sound := Token.opening_sound found
      cases opening with
      | sign => exact sign sound (shorter .unary rest (by simp))
      | paren => exact group sound (shorter .equality rest (by simp))
      | atom value => exact @chain _ [token] rest value sound (Level.ends_unary rest)

end Trial

theorem trial (level : Level) (tokens : List Token) : Trial level tokens := by
  generalize size : tokens.length = bound
  induction bound using Nat.strongRecOn generalizing level tokens with
  | ind bound ih =>
    have unary : ∀ rest : List Token, rest.length ≤ bound → Trial .unary rest := by
      intro rest short
      apply Trial.unary
      intro level inner less
      exact ih inner.length (by omega) level inner rfl
    have factor : ∀ rest : List Token, rest.length ≤ bound → Trial .factor rest := Trial.loosen unary
    have term : ∀ rest : List Token, rest.length ≤ bound → Trial .term rest := Trial.loosen factor
    have comparison : ∀ rest : List Token, rest.length ≤ bound → Trial .comparison rest :=
      Trial.loosen term
    have short : tokens.length ≤ bound := Nat.le_of_eq size
    cases level with
    | unary => exact unary tokens short
    | factor => exact factor tokens short
    | term => exact term tokens short
    | comparison => exact comparison tokens short
    | equality => exact Trial.loosen comparison tokens short

theorem Expr.read_from_derived {level : Level} {tokens rest : List Token} {value : Expr}
    (derived : Derives level tokens value) (ends : level.Ends rest) :
    Expr.readFrom level (tokens ++ rest) = .ok (value, rest) := by
  have admits : Frame.Admits level level [] := Nat.le_refl _
  have read := Expr.read_operand_derived derived admits (Level.ends_mono (Level.tighter_rank _) ends)
  rw [Expr.readFrom, read]
  exact Expr.read_after_done ends value

theorem Expr.read_from_ok_iff {level : Level} {tokens rest : List Token} {value : Expr} :
    Expr.readFrom level tokens = .ok (value, rest) ↔
      ∃ used, tokens = used ++ rest ∧ Derives level used value ∧ level.Ends rest := by
  apply Iff.intro
  · intro accepted
    have alone : Frame.Admits level level [] := Nat.le_refl _
    have trial := trial level tokens
    cases trial with
    | @chain used later found derived ends =>
      rw [Expr.read_from_derived derived ends] at accepted
      cases accepted
      exact ⟨used, rfl, derived, ends⟩
    | @misfit used later expected begins fails =>
      rw [Expr.readFrom, fails level [] later rfl alone] at accepted
      cases accepted
  · intro front
    obtain ⟨used, rfl, derived, ends⟩ := front
    exact Expr.read_from_derived derived ends

end Lox
