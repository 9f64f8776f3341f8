import Lox.Token

/- A source text cut into fragments. Each fragment is the longest lexeme, blank or
   comment that starts where the one before it ended; text that starts none of these
   is a fault. Nothing is lost: the fragments' texts in order are the source. -/
set_option autoImplicit false

namespace Lox

inductive ScanFault where
  | unexpectedCharacter
  | unterminatedString
deriving DecidableEq

def ScanFault.message : ScanFault → String
  | .unexpectedCharacter => "Unexpected character."
  | .unterminatedString => "Unterminated string."

inductive Content where
  | token (kind : TokenKind)
  | skipped
  | fault (cause : ScanFault)

structure Fragment where
  content : Content
  text : List Char

namespace Fragment

def breaks (fragment : Fragment) : Nat := fragment.text.count '\n'

-- Names and blanks are ASCII only.
def startsName (c : Char) : Bool := c.isAlpha || c == '_'
def continuesName (c : Char) : Bool := c.isAlphanum || c == '_'
def isBlank (c : Char) : Bool := c == ' ' || c == '\r' || c == '\t' || c == '\n'

def word (first : Char) (rest : List Char) : Fragment :=
  let text := first :: rest.takeWhile continuesName
  match Keyword.ofSpelling? (String.ofList text) with
  | some word => ⟨.token (.keyword word), text⟩
  | none => ⟨.token .identifier, text⟩

-- A point belongs to a number only when a digit follows it.
def fractionDigits : List Char → List Char
  | '.' :: rest => rest.takeWhile Char.isDigit
  | _ => []

def number (first : Char) (rest : List Char) : Fragment :=
  let whole := first :: rest.takeWhile Char.isDigit
  let fraction := fractionDigits (rest.dropWhile Char.isDigit)
  ⟨.token (.number (Decimal.ofDigits whole fraction).toFloat), Decimal.pointed whole fraction⟩

def quoted (rest : List Char) : Fragment :=
  let body := rest.takeWhile (· != '"')
  if '"' ∈ rest then ⟨.token (.string (String.ofList body)), '"' :: (body ++ ['"'])⟩
  else ⟨.fault .unterminatedString, '"' :: rest⟩

def comment (rest : List Char) : Fragment :=
  ⟨.skipped, '/' :: rest.takeWhile (· != '\n')⟩

def mark (first : Char) (rest : List Char) : Fragment :=
  let pair := first :: rest.take 1
  match Mark.ofSpelling? (String.ofList pair), Mark.ofSpelling? (String.ofList [first]) with
  | some mark, _ => ⟨.token (.mark mark), pair⟩
  | none, some mark => ⟨.token (.mark mark), [first]⟩
  | none, none => ⟨.fault .unexpectedCharacter, [first]⟩

def cut (first : Char) (rest : List Char) : Fragment :=
  if first == '"' then quoted rest
  else if first.isDigit then number first rest
  else if startsName first then word first rest
  else if isBlank first then ⟨.skipped, [first]⟩
  else if first == '/' && rest.head? == some '/' then comment rest
  else mark first rest

-- The number counts the characters that the fragment before still covers.
def cutAll : Nat → List Char → List Fragment
  | _, [] => []
  | 0, first :: rest =>
    let fragment := cut first rest
    fragment :: cutAll (fragment.text.length - 1) rest
  | covered + 1, _ :: rest => cutAll covered rest

def ofSource (source : List Char) : List Fragment := cutAll 0 source

theorem fraction_digits_prefix (rest : List Char) (digit : Char) (digits : List Char)
    (found : fractionDigits rest = digit :: digits) : '.' :: digit :: digits <+: rest := by
  unfold fractionDigits at found
  split at found
  · rw [← found]
    exact List.cons_prefix_cons.mpr ⟨rfl, List.takeWhile_prefix _⟩
  · cases found

theorem until_quote_prefix (rest : List Char) (closed : '"' ∈ rest) :
    rest.takeWhile (· != '"') ++ ['"'] <+: rest := by
  induction rest with
  | nil => cases closed
  | cons first rest ih =>
    by_cases quote : first = '"'
    · simp [quote]
    · have later : '"' ∈ rest := by simpa [Ne.symm quote] using closed
      simpa [quote] using ih later

theorem cut_text (first : Char) (rest : List Char) :
    ∃ tail, (cut first rest).text = first :: tail ∧ tail <+: rest := by
  unfold cut
  split
  · rename_i quote
    have quote : first = '"' := by simpa using quote
    subst quote
    unfold quoted
    dsimp only
    split
    · rename_i closed
      exact ⟨_, rfl, until_quote_prefix rest closed⟩
    · exact ⟨rest, rfl, List.prefix_refl _⟩
  · split
    · unfold number
      dsimp only
      generalize search : fractionDigits _ = fraction
      cases fraction with
      | nil => exact ⟨_, rfl, List.takeWhile_prefix _⟩
      | cons digit digits =>
        refine ⟨_, rfl, ?_⟩
        have inside := fraction_digits_prefix _ _ _ search
        have parted := List.takeWhile_append_dropWhile (p := Char.isDigit) (l := rest)
        simpa [parted] using (List.prefix_append_right_inj (rest.takeWhile Char.isDigit)).mpr inside
    · split
      · unfold word
        dsimp only
        split <;> exact ⟨_, rfl, List.takeWhile_prefix _⟩
      · split
        · exact ⟨[], rfl, List.nil_prefix⟩
        · split
          · rename_i slashes
            obtain ⟨rfl, _⟩ : first = '/' ∧ rest.head? = some '/' := by simpa using slashes
            exact ⟨_, rfl, List.takeWhile_prefix _⟩
          · unfold mark
            dsimp only
            split
            · exact ⟨_, rfl, List.take_prefix _ _⟩
            · exact ⟨[], rfl, List.nil_prefix⟩
            · exact ⟨[], rfl, List.nil_prefix⟩

theorem cut_all_drop (covered : Nat) (source : List Char) :
    cutAll covered source = cutAll 0 (source.drop covered) := by
  induction source generalizing covered with
  | nil => simp [cutAll]
  | cons first rest ih =>
    cases covered with
    | zero => rfl
    | succ covered => simpa [cutAll] using ih covered

theorem of_source_cons (first : Char) (rest : List Char) :
    ofSource (first :: rest) =
      cut first rest :: ofSource (rest.drop ((cut first rest).text.length - 1)) := by
  simp only [ofSource, cutAll]
  rw [cut_all_drop]

theorem of_source_texts (source : List Char) : (ofSource source).flatMap text = source := by
  generalize size : source.length = bound
  induction bound using Nat.strongRecOn generalizing source with
  | ind bound ih =>
    cases source with
    | nil => rfl
    | cons first rest =>
      obtain ⟨tail, whole, inside⟩ := cut_text first rest
      have length : (cut first rest).text.length - 1 = tail.length := by simp [whole]
      rw [of_source_cons, List.flatMap_cons, length, whole,
        ih (rest.drop tail.length).length (by simp at size ⊢; omega) _ rfl]
      simp [List.prefix_iff_eq_append.mp inside]

end Fragment
end Lox
