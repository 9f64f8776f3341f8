import Lox.Proofs.Lexeme
import Mathlib.Data.List.Forall2

set_option autoImplicit false

namespace Lox

theorem take_while_longest {p : Char → Bool} {a b : List Char} (inside : a <+: b)
    (all : ∀ c ∈ a, p c = true) : a.length ≤ (b.takeWhile p).length := by
  obtain ⟨rest, rfl⟩ := inside
  rw [List.takeWhile_append_of_pos all, List.length_append]
  exact Nat.le_add_right _ _

theorem front_exact {p : Char → Bool} {front text : List Char} (all : ∀ c ∈ front, p c = true)
    (stops : ∀ c, text.head? = some c → p c = false) :
    (front ++ text).takeWhile p = front ∧ (front ++ text).dropWhile p = text := by
  rw [List.takeWhile_append_of_pos all, List.dropWhile_append_of_pos all]
  cases text with
  | nil => exact ⟨List.append_nil front, rfl⟩
  | cons first rest => simp [stops first rfl]

theorem front_stopped {p : Char → Bool} {front : List Char} {stop : Char}
    (all : ∀ c ∈ front, p c = true) (fails : p stop = false) (rest : List Char) :
    (front ++ stop :: rest).takeWhile p = front ∧
      (front ++ stop :: rest).dropWhile p = stop :: rest := by
  refine front_exact all ?_
  intro c first
  cases first
  exact fails

theorem all_take_while {p : Char → Bool} {text : List Char} :
    ∀ c ∈ text.takeWhile p, p c = true := List.all_eq_true.mp List.all_takeWhile

theorem all_other_iff {c : Char} {text : List Char} :
    (∀ other ∈ text, (other != c) = true) ↔ c ∉ text := by
  apply Iff.intro
  · intro all member
    simpa using all c member
  · intro free other member
    rw [bne_iff_ne]
    intro same
    exact free (same ▸ member)

namespace Mark

theorem of_spelling_iff {text : String} {mark : Mark} :
    ofSpelling? text = some mark ↔ mark.spelling = text := by
  apply Iff.intro
  · intro found
    simpa using List.find?_some found
  · intro same
    rw [← same]
    cases mark <;> decide

theorem spelling_lexeme (mark : Mark) : Lexeme .operator mark.spelling.toList := by
  cases mark
  case bangEqual => exact .double (c := '!') (by decide)
  case equalEqual => exact .double (c := '=') (by decide)
  case greaterEqual => exact .double (c := '>') (by decide)
  case lessEqual => exact .double (c := '<') (by decide)
  all_goals exact .single (by decide)

theorem operator_spelled {text : List Char} (lexeme : Lexeme .operator text) :
    ∃ mark : Mark, mark.spelling.toList = text := by
  have singles : ∀ c ∈ markChars, (all.find? fun mark => mark.spelling.toList == [c]).isSome = true :=
    List.all_eq_true.mp (by decide)
  have doubles : ∀ c ∈ equalChars,
      (all.find? fun mark => mark.spelling.toList == [c, '=']).isSome = true :=
    List.all_eq_true.mp (by decide)
  have spelled {text : List Char}
      (listed : (all.find? fun mark => mark.spelling.toList == text).isSome = true) :
      ∃ mark : Mark, mark.spelling.toList = text := by
    obtain ⟨mark, found⟩ := Option.isSome_iff_exists.mp listed
    exact ⟨mark, by simpa using List.find?_some found⟩
  cases lexeme with
  | single mark => exact spelled (singles _ mark)
  | double mark => exact spelled (doubles _ mark)

end Mark

namespace Keyword

theorem of_spelling_iff {text : String} {word : Keyword} :
    ofSpelling? text = some word ↔ word.spelling = text := by
  apply Iff.intro
  · intro found
    simpa using List.find?_some found
  · intro same
    rw [← same]
    cases word <;> decide

theorem spelling_lexeme (word : Keyword) : Lexeme .word word.spelling.toList := by
  have spelled {first : Char} {rest : List Char} (all : (first :: rest).all Char.isAlpha = Bool.true) :
      Lexeme .word (first :: rest) := by
    have letters := List.all_eq_true.mp all
    refine .word (.inl (letters first (.head _))) ?_
    intro c member
    exact .inl (by rw [Char.isAlphanum, letters c (.tail _ member), Bool.true_or])
  cases word <;> exact spelled (by decide)

end Keyword

inductive Cut : Fragment → List Char → Prop where
  | token {kind : TokenKind} {piece text : List Char} (longest : Longest piece text)
      (token : IsToken piece) (spells : Spells kind piece) : Cut ⟨.token kind, piece⟩ text
  | skipped {piece text : List Char} (longest : Longest piece text)
      (silent : Lexeme .comment piece ∨ Lexeme .blank piece) : Cut ⟨.skipped, piece⟩ text
  | openString {text : List Char} (none : ∀ other, other <+: text → ¬ IsLexeme other)
      (quote : text.head? = some '"') : Cut ⟨.fault .unterminatedString, text⟩ text
  | stray {text : List Char} (none : ∀ other, other <+: text → ¬ IsLexeme other)
      (other : text.head? ≠ some '"') : Cut ⟨.fault .unexpectedCharacter, text.take 1⟩ text

namespace Fragment

theorem cut_quoted (rest : List Char) : Cut (quoted rest) ('"' :: rest) := by
  have string {other : List Char} (inside : other <+: '"' :: rest) (lexeme : IsLexeme other) :
      ∃ body, other = '"' :: (body ++ ['"']) ∧ '"' ∉ body ∧ body ++ ['"'] <+: rest := by
    have lexeme : Lexeme .string other := lexeme_front rfl (by simp) lexeme inside
    cases lexeme with
    | string unquoted => exact ⟨_, rfl, unquoted, (List.cons_prefix_cons.mp inside).2⟩
  dsimp only [quoted]
  by_cases closed : '"' ∈ rest
  · rw [if_pos closed]
    have unquoted : '"' ∉ rest.takeWhile (· != '"') := all_other_iff.mp all_take_while
    refine .token ⟨?_, ⟨.string, .string unquoted⟩, ?_⟩ (.inr (.inl (.string unquoted)))
      (.string unquoted)
    · exact List.cons_prefix_cons.mpr ⟨rfl, until_quote_prefix rest closed⟩
    · intro other inside lexeme
      obtain ⟨body, rfl, free, front⟩ := string inside lexeme
      have bound := take_while_longest ((List.prefix_append _ _).trans front) (all_other_iff.mpr free)
      simpa using bound
  · rw [if_neg closed]
    refine .openString ?_ rfl
    intro other inside lexeme
    obtain ⟨body, rfl, _, front⟩ := string inside lexeme
    exact closed (front.subset (by simp))

theorem cut_word {first : Char} (rest : List Char) (starts : startsName first = true) :
    Cut (word first rest) (first :: rest) := by
  have named : first.isAlpha = true ∨ first = '_' := by simpa [startsName] using starts
  have all : ∀ c ∈ rest.takeWhile continuesName, c.isAlphanum = true ∨ c = '_' := by
    intro c member
    simpa [continuesName] using all_take_while c member
  have lexeme : Lexeme .word (first :: rest.takeWhile continuesName) := .word named all
  have longest : Longest (first :: rest.takeWhile continuesName) (first :: rest) := by
    refine ⟨List.cons_prefix_cons.mpr ⟨rfl, List.takeWhile_prefix _⟩, ⟨.word, lexeme⟩, ?_⟩
    intro other inside found
    have found := lexeme_front (opened_name named) (by simp) found inside
    cases found with
    | word _ continues =>
      have tail := (List.cons_prefix_cons.mp inside).2
      have named : ∀ c ∈ _, continuesName c = true := fun c member => by
        simpa [continuesName] using continues c member
      have bound := take_while_longest tail named
      simpa using bound
  have token : IsToken (first :: rest.takeWhile continuesName) := .inr (.inr (.inr lexeme))
  dsimp only [word]
  cases found : Keyword.ofSpelling? (String.ofList (first :: rest.takeWhile continuesName)) with
  | some keyword =>
    have spelled : first :: rest.takeWhile continuesName = keyword.spelling.toList := by
      rw [Keyword.of_spelling_iff.mp found, String.toList_ofList]
    exact .token longest token (spelled ▸ .keyword keyword)
  | none =>
    refine .token longest token (.identifier lexeme ?_)
    intro keyword same
    rw [← same, String.ofList_toList, Keyword.of_spelling_iff.mpr rfl] at found
    cases found

theorem digits_front {digits rest text : List Char} (all : ∀ c ∈ digits, c.isDigit = true)
    (inside : digits ++ '.' :: rest <+: text) :
    text.takeWhile Char.isDigit = digits ∧ '.' :: rest <+: text.dropWhile Char.isDigit := by
  obtain ⟨more, rfl⟩ := inside
  obtain ⟨front, back⟩ := front_stopped all (by decide : '.'.isDigit = false) (rest ++ more)
  rw [List.append_assoc, List.cons_append, front, back]
  exact ⟨rfl, List.cons_prefix_cons.mpr ⟨rfl, List.prefix_append _ _⟩⟩

theorem fraction_front {next : Char} {more text : List Char}
    (all : ∀ c ∈ next :: more, c.isDigit = true) (inside : '.' :: next :: more <+: text) :
    ∃ digit digits, fractionDigits text = digit :: digits ∧ more.length ≤ digits.length := by
  obtain ⟨rest, rfl⟩ := inside
  have point : fractionDigits ('.' :: next :: more ++ rest) =
      ((next :: more) ++ rest).takeWhile Char.isDigit := rfl
  rw [point, List.takeWhile_append_of_pos all]
  exact ⟨next, _, rfl, by simp⟩

theorem fraction_digits_all (text : List Char) : ∀ c ∈ fractionDigits text, c.isDigit = true := by
  rw [fractionDigits.eq_def]
  split
  · exact all_take_while
  · simp

theorem number_bound {other text : List Char} (lexeme : Lexeme .number other) (inside : other <+: text) :
    other.length ≤ (Decimal.pointed (text.takeWhile Char.isDigit)
      (fractionDigits (text.dropWhile Char.isDigit))).length := by
  cases lexeme with
  | whole digits =>
    have bound := take_while_longest inside digits
    cases fractionDigits (text.dropWhile Char.isDigit) with
    | nil => exact bound
    | cons next more =>
      rw [Decimal.pointed, List.length_append]
      exact Nat.le_trans bound (Nat.le_add_right _ _)
  | @decimal digit next digits more all point =>
    obtain ⟨whole, front⟩ := digits_front all inside
    obtain ⟨one, most, found, bound⟩ := fraction_front point front
    rw [whole, found]
    simp only [Decimal.pointed, List.length_append, List.length_cons]
    omega

theorem cut_number {first : Char} (rest : List Char) (digit : first.isDigit = true) :
    Cut (number first rest) (first :: rest) := by
  have all : ∀ c ∈ first :: rest.takeWhile Char.isDigit, c.isDigit = true := by
    rw [List.forall_mem_cons]
    exact ⟨digit, all_take_while⟩
  have bound {other : List Char} (inside : other <+: first :: rest) (lexeme : IsLexeme other) :
      other.length ≤ (Decimal.pointed (first :: rest.takeWhile Char.isDigit)
        (fractionDigits (rest.dropWhile Char.isDigit))).length := by
    have number := lexeme_front (opened_digit digit) (by simp) lexeme inside
    have longest := number_bound number inside
    rwa [List.takeWhile_cons_of_pos digit, List.dropWhile_cons_of_pos digit] at longest
  dsimp only [Fragment.number]
  cases search : fractionDigits (rest.dropWhile Char.isDigit) with
  | nil =>
    have lexeme : Lexeme .number (first :: rest.takeWhile Char.isDigit) := .whole all
    refine .token ⟨?_, ⟨.number, lexeme⟩, ?_⟩ (.inr (.inr (.inl lexeme))) (.whole all)
    · exact List.cons_prefix_cons.mpr ⟨rfl, List.takeWhile_prefix _⟩
    · intro other inside found
      simpa only [search] using bound inside found
  | cons next more =>
    have point : ∀ c ∈ next :: more, c.isDigit = true := search ▸ fraction_digits_all _
    have lexeme : Lexeme .number (first :: (rest.takeWhile Char.isDigit ++ '.' :: next :: more)) :=
      .decimal all point
    refine .token ⟨?_, ⟨.number, lexeme⟩, ?_⟩ (.inr (.inr (.inl lexeme))) (.decimal all point)
    · have front := fraction_digits_prefix _ _ _ search
      have whole := (List.prefix_append_right_inj (rest.takeWhile Char.isDigit)).mpr front
      rw [List.takeWhile_append_dropWhile] at whole
      exact List.cons_prefix_cons.mpr ⟨rfl, whole⟩
    · intro other inside found
      simpa only [search] using bound inside found

theorem cut_comment (rest : List Char) : Cut (comment ('/' :: rest)) ('/' :: '/' :: rest) := by
  have free : '\n' ∉ rest.takeWhile (· != '\n') := all_other_iff.mp all_take_while
  have piece : comment ('/' :: rest) = ⟨.skipped, '/' :: '/' :: rest.takeWhile (· != '\n')⟩ := rfl
  rw [piece]
  refine .skipped ⟨?_, ⟨.comment, .comment free⟩, ?_⟩ (.inl (.comment free))
  · simpa using List.takeWhile_prefix (· != '\n')
  · intro other inside lexeme
    obtain ⟨sort, lexeme⟩ := lexeme
    rcases opened_front lexeme inside with operator | ⟨comment, _⟩
    · rw [opened_slash] at operator
      cases operator
      cases lexeme <;> simp
    · cases comment
      cases lexeme with
      | comment unbroken =>
        have front := (List.cons_prefix_cons.mp (List.cons_prefix_cons.mp inside).2).2
        simpa using take_while_longest front (all_other_iff.mpr unbroken)

theorem cut_blank {first : Char} (rest : List Char) (blank : isBlank first = true) :
    Cut ⟨.skipped, [first]⟩ (first :: rest) := by
  have listed : first ∈ blankChars := by simpa [isBlank, blankChars, or_assoc] using blank
  refine .skipped ⟨?_, ⟨.blank, .blank listed⟩, ?_⟩ (.inr (.blank listed))
  · exact List.cons_prefix_cons.mpr ⟨rfl, List.nil_prefix⟩
  · intro other inside lexeme
    have lexeme := lexeme_front (opened_blank listed) (by simp) lexeme inside
    cases lexeme
    exact Nat.le_refl _

theorem operator_front {first : Char} {rest other : List Char} (lexeme : Lexeme .operator other)
    (inside : other <+: first :: rest) : other = [first] ∨ other = first :: rest.take 1 := by
  cases lexeme with
  | single mark =>
    obtain ⟨rfl, _⟩ := List.cons_prefix_cons.mp inside
    exact .inl rfl
  | double mark =>
    obtain ⟨rfl, next⟩ := List.cons_prefix_cons.mp inside
    obtain ⟨tail, rfl⟩ := next
    exact .inr rfl

theorem mark_lexeme {text : List Char} {mark : Mark}
    (found : Mark.ofSpelling? (String.ofList text) = some mark) :
    mark.spelling.toList = text ∧ Lexeme .operator text := by
  have spelled : mark.spelling.toList = text := by
    rw [Mark.of_spelling_iff.mp found, String.toList_ofList]
  exact ⟨spelled, spelled ▸ mark.spelling_lexeme⟩

theorem mark_missing {text : List Char} (missing : Mark.ofSpelling? (String.ofList text) = none) :
    ¬ Lexeme .operator text := by
  intro lexeme
  obtain ⟨mark, rfl⟩ := Mark.operator_spelled lexeme
  rw [String.ofList_toList, Mark.of_spelling_iff.mpr rfl] at missing
  cases missing

theorem cut_mark {first : Char} {rest : List Char}
    (operator : ∀ other, other <+: first :: rest → IsLexeme other → Lexeme .operator other)
    (quote : first ≠ '"') : Cut (mark first rest) (first :: rest) := by
  dsimp only [mark]
  split
  · rename_i found
    obtain ⟨spelled, lexeme⟩ := mark_lexeme found
    refine .token ⟨?_, ⟨.operator, lexeme⟩, ?_⟩ (.inl lexeme) (spelled ▸ .mark _)
    · exact List.cons_prefix_cons.mpr ⟨rfl, List.take_prefix 1 rest⟩
    · intro other inside other_lexeme
      rcases operator_front (operator other inside other_lexeme) inside with rfl | rfl
      · simp
      · exact Nat.le_refl _
  · rename_i missing found
    obtain ⟨spelled, lexeme⟩ := mark_lexeme found
    refine .token ⟨?_, ⟨.operator, lexeme⟩, ?_⟩ (.inl lexeme) (spelled ▸ .mark _)
    · exact List.cons_prefix_cons.mpr ⟨rfl, List.nil_prefix⟩
    · intro other inside other_lexeme
      have other_lexeme := operator other inside other_lexeme
      rcases operator_front other_lexeme inside with rfl | rfl
      · exact Nat.le_refl _
      · exact absurd other_lexeme (mark_missing missing)
  · rename_i pair single
    refine @Cut.stray (first :: rest) ?_ (by simpa using quote)
    intro other inside other_lexeme
    have other_lexeme := operator other inside other_lexeme
    rcases operator_front other_lexeme inside with rfl | rfl
    · exact mark_missing single other_lexeme
    · exact mark_missing pair other_lexeme

theorem cut_cut (first : Char) (rest : List Char) : Cut (cut first rest) (first :: rest) := by
  rw [cut]
  by_cases quote : first = '"'
  · rw [if_pos (by simpa using quote), quote]
    exact cut_quoted rest
  · rw [if_neg (by simpa using quote)]
    by_cases digit : first.isDigit = true
    · rw [if_pos digit]
      exact cut_number rest digit
    · rw [if_neg digit]
      by_cases starts : startsName first = true
      · rw [if_pos starts]
        exact cut_word rest starts
      · rw [if_neg starts]
        by_cases blank : isBlank first = true
        · rw [if_pos blank]
          exact cut_blank rest blank
        · rw [if_neg blank]
          by_cases slashes : first = '/' ∧ rest.head? = some '/'
          · rw [if_pos (by simpa using slashes)]
            obtain ⟨rfl, next⟩ := slashes
            obtain ⟨tail, rfl⟩ := List.head?_eq_some_iff.mp next
            exact cut_comment tail
          · rw [if_neg (by simpa using slashes)]
            refine cut_mark ?_ quote
            intro other inside found
            obtain ⟨sort, lexeme⟩ := found
            rcases opened_front lexeme inside with opens | ⟨rfl, rfl⟩
            · have named : ¬ (first.isAlpha = true ∨ first = '_') := by simpa [startsName] using starts
              have listed : first ∉ blankChars := by simpa [isBlank, blankChars, or_assoc] using blank
              rw [LexemeClass.opened, if_neg quote, if_neg digit, if_neg named, if_neg listed] at opens
              split at opens <;> cases opens
              exact lexeme
            · cases lexeme
              obtain ⟨tail, rfl⟩ := (List.cons_prefix_cons.mp inside).2
              exact absurd ⟨rfl, rfl⟩ slashes

end Fragment

theorem Cut.munch {fragment : Fragment} {text : List Char} (cut : Cut fragment text) :
    Munch fragment.text text := by
  cases cut with
  | token longest _ _ => exact .lexeme longest
  | skipped longest _ => exact .lexeme longest
  | openString none quote => exact .openString none quote rfl
  | stray none other => exact .stray none other rfl

-- A text is cut to its end by cutting what its first fragment leaves.
@[elab_as_elim]
theorem Fragment.cut_induction {motive : List Char → Prop} (nil : motive [])
    (cons : ∀ first rest, motive (rest.drop ((cut first rest).text.length - 1)) →
      motive (first :: rest)) (source : List Char) : motive source := by
  generalize size : source.length = bound
  induction bound using Nat.strongRecOn generalizing source with
  | ind bound ih =>
    cases source with
    | nil => exact nil
    | cons first rest =>
      refine cons first rest (ih _ ?_ _ rfl)
      rw [← size, List.length_drop, List.length_cons]
      exact Nat.lt_succ_of_le (Nat.sub_le _ _)

theorem of_source_munched (source : List Char) :
    Munched ((Fragment.ofSource source).map Fragment.text) := by
  induction source using Fragment.cut_induction with
  | nil => exact .nil
  | cons first rest ih =>
    obtain ⟨tail, text, _⟩ := Fragment.cut_text first rest
    have whole := Fragment.of_source_texts (first :: rest)
    rw [Fragment.of_source_cons, List.flatMap_cons] at whole
    rw [Fragment.of_source_cons, List.map_cons]
    refine .cons (by simp [text]) ?_ ih
    rw [← List.flatMap_def, whole]
    exact (Fragment.cut_cut first rest).munch

structure Token.Reads (piece : List Char) (token : Token) : Prop where
  lexeme : token.lexeme = String.ofList piece
  kind : Spells token.kind piece
  keyword : ∀ word, token.kind = .keyword word ↔ word.spelling = token.lexeme

def Diagnostic.Complains (piece : List Char) (diagnostic : Diagnostic) : Prop :=
  ∃ line, diagnostic = .scan line
    (if piece.head? = some '"' then "Unterminated string." else "Unexpected character.")

theorem spells_keyword {kind : TokenKind} {text : List Char} (spells : Spells kind text)
    {word : Keyword} (spelled : word.spelling.toList = text) : kind = .keyword word := by
  have lexeme : Lexeme .word text := spelled ▸ word.spelling_lexeme
  have apart {sort : LexemeClass} (other : Lexeme sort text) (different : sort ≠ .word) : False :=
    different (sort_unique other lexeme)
  cases spells with
  | mark mark => exact absurd (apart mark.spelling_lexeme) (by simp)
  | string inside => exact absurd (apart (.string inside)) (by simp)
  | whole all => exact absurd (apart (.whole all)) (by simp)
  | decimal all point => exact absurd (apart (.decimal all point)) (by simp)
  | keyword found =>
    have same := Keyword.of_spelling_iff.mpr (String.toList_inj.mp spelled)
    rw [Keyword.of_spelling_iff.mpr rfl] at same
    cases same
    rfl
  | identifier _ other => exact absurd spelled (other word)

theorem spells_reads {kind : TokenKind} {piece : List Char} (spells : Spells kind piece) (line : Nat) :
    Token.Reads piece ⟨kind, String.ofList piece, line⟩ := by
  refine ⟨rfl, spells, ?_⟩
  intro word
  apply Iff.intro
  · intro same
    change kind = .keyword word at same
    rw [same] at spells
    cases spells
    simp
  · intro same
    have spelled : word.spelling.toList = piece := by simp [same]
    exact spells_keyword spells spelled

theorem is_token_lexeme {text : List Char} (token : IsToken text) : IsLexeme text := by
  rcases token with lexeme | lexeme | lexeme | lexeme
  all_goals exact ⟨_, lexeme⟩

theorem silent_not_token {text : List Char}
    (silent : Lexeme .comment text ∨ Lexeme .blank text) : ¬ IsToken text := by
  have apart {a b : LexemeClass} (different : a ≠ b) (one : Lexeme a text) (other : Lexeme b text) :
      False := different (sort_unique one other)
  intro token
  rcases token with lexeme | lexeme | lexeme | lexeme
  all_goals
    rcases silent with comment | blank
    · exact apart (by simp) lexeme comment
    · exact apart (by simp) lexeme blank

theorem cut_token {fragment : Fragment} {text : List Char} (cut : Cut fragment text) (line : Nat) :
    (IsToken fragment.text ∧ ∃ token, Placed.token? ⟨fragment, line⟩ = some token ∧
      Token.Reads fragment.text token) ∨
    (¬ IsToken fragment.text ∧ Placed.token? ⟨fragment, line⟩ = none) := by
  cases cut with
  | token _ token spells => exact .inl ⟨token, _, rfl, spells_reads spells _⟩
  | skipped _ silent => exact .inr ⟨silent_not_token silent, rfl⟩
  | openString none _ =>
    exact .inr ⟨fun token => none _ (List.prefix_refl _) (is_token_lexeme token), rfl⟩
  | stray none _ =>
    exact .inr ⟨fun token => none _ (List.take_prefix _ _) (is_token_lexeme token), rfl⟩

theorem cut_diagnostic {fragment : Fragment} {text : List Char} (cut : Cut fragment text) (line : Nat) :
    (¬ IsLexeme fragment.text ∧ ∃ diagnostic, Placed.diagnostic? ⟨fragment, line⟩ = some diagnostic ∧
      Diagnostic.Complains fragment.text diagnostic) ∨
    (¬ ¬ IsLexeme fragment.text ∧ Placed.diagnostic? ⟨fragment, line⟩ = none) := by
  cases cut with
  | token longest _ _ => exact .inr ⟨not_not_intro longest.lexeme, rfl⟩
  | skipped longest _ => exact .inr ⟨not_not_intro longest.lexeme, rfl⟩
  | openString none quote =>
    refine .inl ⟨none _ (List.prefix_refl _), _, rfl, line, ?_⟩
    rw [if_pos quote]
    rfl
  | stray none other =>
    refine .inl ⟨none _ (List.take_prefix _ _), _, rfl, line, ?_⟩
    rw [if_neg (by simpa [List.head?_take] using other)]
    rfl

theorem read_companions {A B Result : Type} {related : A → B → Prop} {test : A → Prop} [DecidablePred test]
    {read : B → Option Result} {reads : A → Result → Prop}
    (each : ∀ a b, related a b → (test a ∧ ∃ result, read b = some result ∧ reads a result) ∨
      (¬ test a ∧ read b = none)) {as : List A} {bs : List B} (all : List.Forall₂ related as bs) :
    List.Forall₂ reads (as.filter (test ·)) (bs.filterMap read) := by
  induction all with
  | nil => exact .nil
  | @cons a b _ _ first _ ih =>
    rcases each a b first with ⟨passes, result, found, here⟩ | ⟨fails, missing⟩
    · rw [List.filter_cons_of_pos (by simpa using passes), List.filterMap_cons_some found]
      exact .cons here ih
    · rw [List.filter_cons_of_neg (by simpa using fails), List.filterMap_cons_none missing]
      exact ih

namespace Placed

theorem from_line_fragments (line : Nat) (fragments : List Fragment) :
    (fromLine line fragments).map fragment = fragments := by
  induction fragments generalizing line with
  | nil => rfl
  | cons first rest ih => rw [fromLine, List.map_cons, ih]

theorem from_line_mem {line : Nat} {fragments : List Fragment} {placed : Placed}
    (member : placed ∈ fromLine line fragments) : placed.fragment ∈ fragments := by
  rw [← from_line_fragments line fragments]
  exact List.mem_map_of_mem member

end Placed

theorem placed_read {Result : Type} {read : Placed → Option Result} {test : List Char → Prop}
    [DecidablePred test] {reads : List Char → Result → Prop} {fragments : List Fragment}
    (each : ∀ fragment ∈ fragments, ∀ line,
      (test fragment.text ∧ ∃ result, read ⟨fragment, line⟩ = some result ∧ reads fragment.text result) ∨
      (¬ test fragment.text ∧ read ⟨fragment, line⟩ = none)) (line : Nat) :
    List.Forall₂ reads ((fragments.map Fragment.text).filter (test ·))
      ((Placed.fromLine line fragments).filterMap read) := by
  have pieces : fragments.map Fragment.text =
      (Placed.fromLine line fragments).map fun placed => placed.fragment.text := by
    conv_lhs => rw [← Placed.from_line_fragments line fragments, List.map_map]
    rfl
  have companions : List.Forall₂
      (fun piece placed => piece = placed.fragment.text ∧ placed.fragment ∈ fragments)
      (fragments.map Fragment.text) (Placed.fromLine line fragments) := by
    rw [pieces, List.forall₂_map_left_iff, List.forall₂_same]
    intro placed member
    exact ⟨rfl, Placed.from_line_mem member⟩
  refine read_companions ?_ companions
  rintro piece ⟨fragment, line⟩ ⟨rfl, member⟩
  exact each fragment member line

theorem of_source_cuts (source : List Char) :
    ∀ fragment ∈ Fragment.ofSource source, ∃ text, Cut fragment text := by
  induction source using Fragment.cut_induction with
  | nil => simp [Fragment.ofSource, Fragment.cutAll]
  | cons first rest ih =>
    rw [Fragment.of_source_cons, List.forall_mem_cons]
    exact ⟨⟨_, Fragment.cut_cut first rest⟩, ih⟩

open Classical in
theorem scan_maximal_munch (source : String) :
    ∃ pieces : List (List Char), pieces.flatten = source.toList ∧ Munched pieces ∧
      (∃ tokens line, (scan source).tokens = tokens ++ [⟨.eof, "", line⟩] ∧
        List.Forall₂ Token.Reads (pieces.filter (IsToken ·)) tokens) ∧
      List.Forall₂ Diagnostic.Complains (pieces.filter (¬ IsLexeme ·)) (scan source).errors := by
  have cuts := of_source_cuts source.toList
  refine ⟨(Fragment.ofSource source.toList).map Fragment.text, ?_, of_source_munched _, ?_, ?_⟩
  · rw [← List.flatMap_def, Fragment.of_source_texts]
  · refine ⟨_, _, rfl, placed_read ?_ 1⟩
    intro fragment member line
    obtain ⟨text, cut⟩ := cuts fragment member
    exact cut_token cut line
  · refine placed_read ?_ 1
    intro fragment member line
    obtain ⟨text, cut⟩ := cuts fragment member
    exact cut_diagnostic cut line

end Lox
