import Lox.Expr

/- Expressions read from tokens, in one pass and with a stack of what is still open.
   A binary operator takes the operand before it together with every open operator that
   binds at least as tightly; so chains associate to the left. -/
set_option autoImplicit false

namespace Lox

inductive Level where
  | equality | comparison | term | factor | unary
deriving DecidableEq

def Level.rank : Level → Nat
  | .equality => 0
  | .comparison => 1
  | .term => 2
  | .factor => 3
  | .unary => 4

def Mark.level? : Mark → Option Level
  | .bangEqual | .equalEqual => some .equality
  | .greater | .greaterEqual | .less | .lessEqual => some .comparison
  | .minus | .plus => some .term
  | .slash | .star => some .factor
  | _ => none

inductive Opening where
  | sign
  | paren
  | atom (value : Expr)

namespace Token

def opening? (token : Token) : Option Opening :=
  match token.kind with
  | .mark .bang | .mark .minus => some .sign
  | .mark .leftParen => some .paren
  | .identifier => some (.atom (.name token))
  | .number value => some (.atom (.literal (.number value)))
  | .string value => some (.atom (.literal (.string value)))
  | .keyword .true => some (.atom (.literal (.boolean true)))
  | .keyword .false => some (.atom (.literal (.boolean false)))
  | .keyword .nil => some (.atom (.literal .nil))
  | _ => none

def level? (token : Token) : Option Level :=
  match token.kind with
  | .mark mark => mark.level?
  | _ => none

def isMark (token : Token) (mark : Mark) : Bool :=
  match token.kind with
  | .mark m => m == mark
  | _ => false

def isKeyword (token : Token) (word : Keyword) : Bool :=
  match token.kind with
  | .keyword w => w == word
  | _ => false

def isName (token : Token) : Bool :=
  match token.kind with
  | .identifier => true
  | _ => false

end Token

inductive Expectation where
  | expression
  | closingParen
  | variableName
  | declarationEnd
  | valueEnd
  | expressionEnd
deriving DecidableEq

def Expectation.message : Expectation → String
  | .expression => "Expect expression."
  | .closingParen => "Expect ')' after expression."
  | .variableName => "Expect variable name."
  | .declarationEnd => "Expect ';' after variable declaration."
  | .valueEnd => "Expect ';' after value."
  | .expressionEnd => "Expect ';' after expression."

-- The rest starts with the token that did not fit; it is empty at the end.
structure Failure where
  expected : Expectation
  rest : List Token

abbrev Reading (α : Type) := Except Failure (α × List Token)

def Reading.rest {α : Type} : Reading α → List Token
  | .ok (_, rest) => rest
  | .error failure => failure.rest

def Reading.andThen {α β : Type} (first : Reading α) (next : α → List Token → Reading β) : Reading β :=
  match first with
  | .ok (value, rest) => next value rest
  | .error failure => .error failure

theorem Reading.and_then_suffix {α β : Type} {first : Reading α} {next : α → List Token → Reading β}
    {tokens : List Token} (before : first.rest <:+ tokens)
    (after : ∀ value rest, (next value rest).rest <:+ rest) : (first.andThen next).rest <:+ tokens := by
  cases first with
  | ok pair => exact (after pair.1 pair.2).trans before
  | error failure => exact before

inductive Frame where
  | group
  | sign (operator : Token)
  | left (operand : Expr) (operator : Token) (level : Level)

-- Closes every open operator that binds at least as tightly as the level.
def Frame.settle (level : Level) (value : Expr) : List Frame → Expr × List Frame
  | .sign operator :: stack => settle level (.unary operator value) stack
  | .left operand operator opened :: stack =>
    if level.rank ≤ opened.rank then settle level (.binary operand operator value) stack
    else (value, .left operand operator opened :: stack)
  | stack => (value, stack)

namespace Expr

-- Operators looser than the floor end the expression unless a parenthesis is open.
mutual
def readOperand (floor : Level) (stack : List Frame) : List Token → Reading Expr
  | [] => .error ⟨.expression, []⟩
  | token :: rest =>
    match token.opening? with
    | some .sign => readOperand floor (.sign token :: stack) rest
    | some .paren => readOperand floor (.group :: stack) rest
    | some (.atom value) => readAfter floor stack value rest
    | none => .error ⟨.expression, token :: rest⟩

def readAfter (floor : Level) (stack : List Frame) (value : Expr) : List Token → Reading Expr
  | [] =>
    match Frame.settle .equality value stack with
    | (whole, []) => .ok (whole, [])
    | (_, _ :: _) => .error ⟨.closingParen, []⟩
  | token :: rest =>
    match token.level? with
    | some level =>
      match Frame.settle level value stack with
      | (whole, []) =>
        if level.rank < floor.rank then .ok (whole, token :: rest)
        else readOperand floor [.left whole token level] rest
      | (part, stack) => readOperand floor (.left part token level :: stack) rest
    | none =>
      match Frame.settle .equality value stack with
      | (whole, []) => .ok (whole, token :: rest)
      | (inner, _ :: outer) =>
        if token.isMark .rightParen then readAfter floor outer (.group inner) rest
        else .error ⟨.closingParen, token :: rest⟩
end

theorem read_suffix (tokens : List Token) :
    (∀ floor stack, (readOperand floor stack tokens).rest <:+ tokens) ∧
    (∀ floor stack value, (readAfter floor stack value tokens).rest <:+ tokens) := by
  induction tokens with
  | nil =>
    constructor
    · intro floor stack
      simp [readOperand, Reading.rest]
    · intro floor stack value
      rw [readAfter]
      split <;> simp [Reading.rest]
  | cons token rest ih =>
    obtain ⟨operand, after⟩ := ih
    have later {tokens : List Token} (inside : tokens <:+ rest) : tokens <:+ token :: rest :=
      inside.trans (List.suffix_cons token rest)
    constructor
    · intro floor stack
      rw [readOperand]
      split
      · exact later (operand ..)
      · exact later (operand ..)
      · exact later (after ..)
      · exact List.suffix_refl _
    · intro floor stack value
      rw [readAfter]
      split
      · split
        · split
          · exact List.suffix_refl _
          · exact later (operand ..)
        · exact later (operand ..)
      · split
        · exact List.suffix_refl _
        · split
          · exact later (after ..)
          · exact List.suffix_refl _

def readFrom (floor : Level) (tokens : List Token) : Reading Expr :=
  readOperand floor [] tokens

def read (tokens : List Token) : Reading Expr :=
  readFrom .equality tokens

theorem read_from_suffix (floor : Level) (tokens : List Token) :
    (readFrom floor tokens).rest <:+ tokens :=
  (read_suffix tokens).1 floor []

theorem read_from_progress {floor : Level} {tokens rest : List Token} {value : Expr}
    (accepted : readFrom floor tokens = .ok (value, rest)) : rest.length < tokens.length := by
  cases tokens with
  | nil => simp [readFrom, readOperand] at accepted
  | cons token after =>
    have inside : rest <:+ after := by
      have both := read_suffix after
      rw [readFrom, readOperand] at accepted
      split at accepted
      · simpa [accepted, Reading.rest] using both.1 floor [.sign token]
      · simpa [accepted, Reading.rest] using both.1 floor [.group]
      · rename_i value _
        simpa [accepted, Reading.rest] using both.2 floor [] value
      · cases accepted
    have shorter := inside.length_le
    simp
    omega

end Expr
end Lox
