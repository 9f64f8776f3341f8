import Lox.Source

set_option autoImplicit false

namespace Lox

inductive LexemeClass where
  | operator | string | number | word | comment | blank
deriving DecidableEq

def markChars : List Char :=
  ['(', ')', '\x7b', '\x7d', ',', '.', '-', '+', ';', '/', '*', '!', '=', '<', '>']

def equalChars : List Char := ['!', '=', '<', '>']

def blankChars : List Char := [' ', '\r', '\t', '\n']

inductive Lexeme : LexemeClass → List Char → Prop where
  | single {c : Char} (mark : c ∈ markChars) : Lexeme .operator [c]
  | double {c : Char} (mark : c ∈ equalChars) : Lexeme .operator [c, '=']
  | string {body : List Char} (inside : '"' ∉ body) : Lexeme .string ('"' :: (body ++ ['"']))
  | whole {digit : Char} {digits : List Char} (all : ∀ c ∈ digit :: digits, c.isDigit = true) :
      Lexeme .number (digit :: digits)
  | decimal {digit next : Char} {digits more : List Char}
      (all : ∀ c ∈ digit :: digits, c.isDigit = true) (point : ∀ c ∈ next :: more, c.isDigit = true) :
      Lexeme .number (digit :: (digits ++ '.' :: next :: more))
  | word {first : Char} {rest : List Char} (starts : first.isAlpha = true ∨ first = '_')
      (all : ∀ c ∈ rest, c.isAlphanum = true ∨ c = '_') : Lexeme .word (first :: rest)
  | comment {body : List Char} (inside : '\n' ∉ body) : Lexeme .comment ('/' :: '/' :: body)
  | blank {c : Char} (blank : c ∈ blankChars) : Lexeme .blank [c]

def IsLexeme (text : List Char) : Prop := ∃ sort, Lexeme sort text

def IsToken (text : List Char) : Prop :=
  Lexeme .operator text ∨ Lexeme .string text ∨ Lexeme .number text ∨ Lexeme .word text

structure Longest (piece text : List Char) : Prop where
  inside : piece <+: text
  lexeme : IsLexeme piece
  longest : ∀ other, other <+: text → IsLexeme other → other.length ≤ piece.length

-- Where no lexeme starts, an open string takes the whole text and anything else one character.
inductive Munch (piece text : List Char) : Prop where
  | lexeme (longest : Longest piece text)
  | openString (none : ∀ other, other <+: text → ¬ IsLexeme other)
      (quote : text.head? = some '"') (all : piece = text)
  | stray (none : ∀ other, other <+: text → ¬ IsLexeme other)
      (other : text.head? ≠ some '"') (one : piece = text.take 1)

inductive Munched : List (List Char) → Prop where
  | nil : Munched []
  | cons {piece : List Char} {rest : List (List Char)} (some : piece ≠ [])
      (munch : Munch piece (piece ++ rest.flatten)) (later : Munched rest) : Munched (piece :: rest)

inductive Spells : TokenKind → List Char → Prop where
  | mark (mark : Mark) : Spells (.mark mark) mark.spelling.toList
  | string {body : List Char} (inside : '"' ∉ body) :
      Spells (.string (String.ofList body)) ('"' :: (body ++ ['"']))
  | whole {digit : Char} {digits : List Char} (all : ∀ c ∈ digit :: digits, c.isDigit = true) :
      Spells (.number (Decimal.ofDigits (digit :: digits) []).toFloat) (digit :: digits)
  | decimal {digit next : Char} {digits more : List Char}
      (all : ∀ c ∈ digit :: digits, c.isDigit = true) (point : ∀ c ∈ next :: more, c.isDigit = true) :
      Spells (.number (Decimal.ofDigits (digit :: digits) (next :: more)).toFloat)
        (digit :: (digits ++ '.' :: next :: more))
  | keyword (word : Keyword) : Spells (.keyword word) word.spelling.toList
  | identifier {text : List Char} (word : Lexeme .word text)
      (other : ∀ keyword : Keyword, keyword.spelling.toList ≠ text) : Spells .identifier text

def LexemeClass.opened (c : Char) : Option LexemeClass :=
  if c = '"' then some .string
  else if c.isDigit then some .number
  else if c.isAlpha ∨ c = '_' then some .word
  else if c ∈ blankChars then some .blank
  else if c ∈ markChars then some .operator
  else none

theorem opened_slash : LexemeClass.opened '/' = some .operator := by
  decide

theorem opened_blank {c : Char} (blank : c ∈ blankChars) : LexemeClass.opened c = some .blank := by
  have all : ∀ c ∈ blankChars, LexemeClass.opened c = some .blank :=
    List.map_eq_replicate_iff.mp (by decide)
  exact all c blank

theorem opened_digit {c : Char} (digit : c.isDigit = true) : LexemeClass.opened c = some .number := by
  have quote : c ≠ '"' := by
    intro same
    rw [same] at digit
    cases digit
  rw [LexemeClass.opened, if_neg quote, if_pos digit]

theorem name_not_digit {c : Char} (starts : c.isAlpha = true ∨ c = '_') : ¬ c.isDigit = true := by
  intro digit
  rcases starts with letter | underscore
  · have most : c.val ≤ 57 := (by simpa [Char.isDigit] using digit : 48 ≤ c.val ∧ c.val ≤ 57).2
    have split : c.isUpper = true ∨ c.isLower = true := Bool.or_eq_true_iff.mp letter
    rcases split with upper | lower
    · have least : 65 ≤ c.val := (of_decide_eq_true upper).1
      exact absurd (UInt32.le_trans least most) (by decide)
    · have least : 97 ≤ c.val := of_decide_eq_true (Bool.and_eq_true_iff.mp lower).1
      exact absurd (UInt32.le_trans least most) (by decide)
  · rw [underscore] at digit
    cases digit

theorem opened_name {c : Char} (starts : c.isAlpha = true ∨ c = '_') :
    LexemeClass.opened c = some .word := by
  have quote : c ≠ '"' := by
    intro same
    rw [same] at starts
    rcases starts with letter | underscore
    · cases letter
    · cases underscore
  rw [LexemeClass.opened, if_neg quote, if_neg (name_not_digit starts), if_pos starts]

theorem opened_lexeme {sort : LexemeClass} {text : List Char} (lexeme : Lexeme sort text) :
    ∃ first rest, text = first :: rest ∧
      (LexemeClass.opened first = some sort ∨ (sort = .comment ∧ first = '/')) := by
  have marks : ∀ c ∈ markChars, LexemeClass.opened c = some .operator :=
    List.map_eq_replicate_iff.mp (by decide)
  have equals : ∀ c ∈ equalChars, LexemeClass.opened c = some .operator :=
    List.map_eq_replicate_iff.mp (by decide)
  cases lexeme with
  | single mark => exact ⟨_, _, rfl, .inl (marks _ mark)⟩
  | double mark => exact ⟨_, _, rfl, .inl (equals _ mark)⟩
  | string inside => exact ⟨_, _, rfl, .inl rfl⟩
  | whole all => exact ⟨_, _, rfl, .inl (opened_digit (all _ (.head _)))⟩
  | decimal all point => exact ⟨_, _, rfl, .inl (opened_digit (all _ (.head _)))⟩
  | word starts all => exact ⟨_, _, rfl, .inl (opened_name starts)⟩
  | comment inside => exact ⟨_, _, rfl, .inr ⟨rfl, rfl⟩⟩
  | blank blank => exact ⟨_, _, rfl, .inl (opened_blank blank)⟩

theorem opened_front {sort : LexemeClass} {first : Char} {text rest : List Char}
    (lexeme : Lexeme sort text) (inside : text <+: first :: rest) :
    LexemeClass.opened first = some sort ∨ (sort = .comment ∧ first = '/') := by
  obtain ⟨c, tail, rfl, opens⟩ := opened_lexeme lexeme
  obtain ⟨rfl, _⟩ := List.cons_prefix_cons.mp inside
  exact opens

theorem lexeme_front {sort : LexemeClass} {first : Char} {text rest : List Char}
    (opens : LexemeClass.opened first = some sort) (other : sort ≠ .operator)
    (lexeme : IsLexeme text) (inside : text <+: first :: rest) : Lexeme sort text := by
  obtain ⟨found, lexeme⟩ := lexeme
  rcases opened_front lexeme inside with same | ⟨_, slash⟩
  · rw [opens] at same
    cases same
    exact lexeme
  · rw [slash, opened_slash] at opens
    cases opens
    exact absurd rfl other

theorem sort_unique {a b : LexemeClass} {text : List Char} (one : Lexeme a text)
    (other : Lexeme b text) : a = b := by
  have apart {sort : LexemeClass} {rest : List Char} (comment : Lexeme .comment ('/' :: rest))
      (opens : LexemeClass.opened '/' = some sort) : ¬ Lexeme sort ('/' :: rest) := by
    rw [opened_slash] at opens
    cases opens
    intro operator
    cases comment
    cases operator
  obtain ⟨first, rest, rfl, opensOne⟩ := opened_lexeme one
  have opensOther := opened_front other (List.prefix_refl _)
  rcases opensOne with opensOne | ⟨rfl, rfl⟩
  · rcases opensOther with opensOther | ⟨rfl, rfl⟩
    · exact Option.some.inj (opensOne.symm.trans opensOther)
    · exact absurd one (apart other opensOne)
  · rcases opensOther with opensOther | ⟨rfl, _⟩
    · exact absurd other (apart one opensOther)
    · rfl

end Lox
