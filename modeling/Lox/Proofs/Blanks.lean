import Lox.Proofs.ReadBack

set_option autoImplicit false

namespace Lox

namespace Fragment

theorem cut_name {first : Char} (rest : List Char) (starts : first.isAlpha = true ∨ first = '_') :
    cut first rest = word first rest := by
  have quote : ¬ (first == '"') = true := by
    intro same
    rw [beq_iff_eq.mp same] at starts
    exact absurd starts (by decide)
  have named : startsName first = true := by simpa [startsName] using starts
  rw [cut, if_neg quote, if_neg (name_not_digit starts), if_pos named]

theorem quoted_closed {body : List Char} (inside : '"' ∉ body) (after : List Char) :
    quoted (body ++ '"' :: after) =
      ⟨.token (.string (String.ofList body)), '"' :: (body ++ ['"'])⟩ := by
  have front := (front_stopped (all_other_iff.mpr inside) (bne_self_eq_false '"') after).1
  rw [quoted, front, if_pos (by simp)]

theorem cut_spelled {kind : TokenKind} {first : Char} {rest : List Char}
    (spells : Spells kind (first :: rest)) : cut first rest = ⟨.token kind, first :: rest⟩ := by
  generalize whole : first :: rest = text at spells
  cases spells with
  | mark mark =>
    cases mark <;> (obtain ⟨rfl, rfl⟩ := List.cons.inj whole; rfl)
  | @string body inside =>
    obtain ⟨rfl, rfl⟩ := List.cons.inj whole
    exact quoted_closed inside []
  | @whole digit digits all =>
    obtain ⟨rfl, rfl⟩ := List.cons.inj whole
    have number := @cut_pointed first rest [] [] all (by simp) (by simp [EndsNumber])
    rwa [List.append_nil] at number
  | @decimal digit next digits more all point =>
    obtain ⟨rfl, rfl⟩ := List.cons.inj whole
    have number := @cut_pointed first digits (next :: more) [] all point (by simp [EndsNumber])
    rwa [List.append_nil] at number
  | keyword word =>
    cases word <;> (obtain ⟨rfl, rfl⟩ := List.cons.inj whole; rfl)
  | identifier lexeme other =>
    subst whole
    cases lexeme with
    | word starts all =>
      have whole : rest.takeWhile continuesName = rest := by
        rw [List.takeWhile_eq_self_iff]
        intro c member
        simpa [continuesName] using all c member
      have unreserved : Keyword.ofSpelling? (String.ofList (first :: rest)) = none := by
        cases found : Keyword.ofSpelling? (String.ofList (first :: rest)) with
        | none => rfl
        | some keyword =>
          refine absurd ?_ (other keyword)
          rw [Keyword.of_spelling_iff.mp found, String.toList_ofList]
      rw [cut_name rest starts, word, whole, unreserved]

end Fragment

theorem spells_token {kind : TokenKind} {text : List Char} (spells : Spells kind text) :
    IsToken text := by
  cases spells with
  | mark mark => exact .inl mark.spelling_lexeme
  | string inside => exact .inr (.inl (.string inside))
  | whole all => exact .inr (.inr (.inl (.whole all)))
  | decimal all point => exact .inr (.inr (.inl (.decimal all point)))
  | keyword word => exact .inr (.inr (.inr word.spelling_lexeme))
  | identifier word _ => exact .inr (.inr (.inr word))

theorem lexeme_some {text : List Char} (lexeme : IsLexeme text) : ∃ first rest, text = first :: rest := by
  obtain ⟨_, lexeme⟩ := lexeme
  obtain ⟨first, rest, whole, _⟩ := opened_lexeme lexeme
  exact ⟨first, rest, whole⟩

theorem spells_unique {kind other : TokenKind} {text : List Char} (one : Spells kind text)
    (two : Spells other text) : kind = other := by
  obtain ⟨first, rest, rfl⟩ := lexeme_some (is_token_lexeme (spells_token one))
  have same := (Fragment.cut_spelled one).symm.trans (Fragment.cut_spelled two)
  injection same with content
  injection content

theorem longest_self {piece : List Char} (lexeme : IsLexeme piece) : Longest piece piece :=
  ⟨List.prefix_refl _, lexeme, fun _ inside _ => inside.length_le⟩

theorem longest_unique {a b text : List Char} (one : Longest a text) (other : Longest b text) :
    a = b := by
  have inside := List.prefix_of_prefix_length_le one.inside other.inside
    (other.longest a one.inside one.lexeme)
  exact inside.eq_of_length_le (one.longest b other.inside other.lexeme)

theorem cut_longest {fragment : Fragment} {text rest : List Char} {first : Char}
    (cut : Cut fragment text) (longest : Longest fragment.text (first :: rest)) :
    Fragment.cut first rest = fragment := by
  have found := Fragment.cut_cut first rest
  generalize Fragment.cut first rest = other at found
  have same (again : Longest other.text (first :: rest)) : other.text = fragment.text :=
    longest_unique again longest
  cases found with
  | @token kind piece _ again token spells =>
    obtain rfl : piece = fragment.text := same again
    cases cut with
    | token _ _ spells' => rw [spells_unique spells spells']
    | skipped _ silent => exact absurd token (silent_not_token silent)
    | openString none _ => exact absurd longest.lexeme (none _ (List.prefix_refl _))
    | stray none _ => exact absurd longest.lexeme (none _ (List.take_prefix _ _))
  | @skipped piece _ again silent =>
    obtain rfl : piece = fragment.text := same again
    cases cut with
    | token _ token _ => exact absurd token (silent_not_token silent)
    | skipped _ _ => rfl
    | openString none _ => exact absurd longest.lexeme (none _ (List.prefix_refl _))
    | stray none _ => exact absurd longest.lexeme (none _ (List.take_prefix _ _))
  | openString none _ => exact absurd longest.lexeme (none _ longest.inside)
  | stray none _ => exact absurd longest.lexeme (none _ longest.inside)

theorem of_source_longest {fragment : Fragment} {text after : List Char} (cut : Cut fragment text)
    (longest : Longest fragment.text (fragment.text ++ after)) :
    Fragment.ofSource (fragment.text ++ after) = fragment :: Fragment.ofSource after := by
  obtain ⟨content, piece⟩ := fragment
  obtain ⟨first, front, rfl⟩ := lexeme_some longest.lexeme
  exact Fragment.of_source_fragment (cut_longest cut longest)

theorem blank_held {sort : LexemeClass} {text : List Char} {c : Char} (lexeme : Lexeme sort text)
    (blank : c ∈ blankChars) (member : c ∈ text) : sort = .string ∨ sort = .comment ∨ text = [c] := by
  have front {other : LexemeClass} {rest : List Char} (lexeme : Lexeme other (c :: rest)) :
      other = .blank := by
    rcases opened_front lexeme (List.prefix_refl _) with same | ⟨_, rfl⟩
    · exact Option.some.inj (same.symm.trans (opened_blank blank))
    · exact absurd (opened_blank blank) (by rw [opened_slash]; simp)
  have digit : ¬ c.isDigit = true := by
    intro digit
    cases front (@Lexeme.whole c [] (by simpa using digit))
  have named : ¬ (c.isAlpha = true ∨ c = '_') := by
    intro starts
    cases front (@Lexeme.word c [] starts (by simp))
  cases lexeme with
  | single mark =>
    obtain rfl := List.mem_singleton.mp member
    cases front (.single mark)
  | double mark =>
    rcases List.mem_cons.mp member with rfl | equal
    · cases front (.double mark)
    · obtain rfl := List.mem_singleton.mp equal
      cases front (.single (by decide))
  | string => exact .inl rfl
  | whole all => exact absurd (all c member) digit
  | @decimal first next digits more all point =>
    have member : c ∈ (first :: digits) ++ '.' :: next :: more := member
    rcases List.mem_append.mp member with whole | pointed
    · exact absurd (all c whole) digit
    · rcases List.mem_cons.mp pointed with rfl | fraction
      · cases front (.single (by decide))
      · exact absurd (point c fraction) digit
  | word starts all =>
    rcases List.mem_cons.mp member with rfl | later
    · exact absurd starts named
    · rcases all c later with both | underscore
      · rcases Bool.or_eq_true_iff.mp both with letter | number
        · exact absurd (.inl letter) named
        · exact absurd number digit
      · exact absurd (.inr underscore) named
  | comment => exact .inr (.inl rfl)
  | blank _ =>
    obtain rfl := List.mem_singleton.mp member
    exact .inr (.inr rfl)

theorem string_whole {piece rest : List Char} (one : Lexeme .string piece)
    (other : Lexeme .string (piece ++ rest)) : rest = [] := by
  cases one with
  | @string body inside =>
    generalize whole : '"' :: (body ++ ['"']) ++ rest = text at other
    cases other with
    | @string body' inside' =>
      have same : body ++ '"' :: rest = body' ++ ['"'] := by simpa using whole
      have stop {body : List Char} (inside : '"' ∉ body) (rest : List Char) :=
        front_stopped (all_other_iff.mpr inside) (bne_self_eq_false '"') rest
      have bodies := congrArg (List.takeWhile (· != '"')) same
      rw [(stop inside rest).1, (stop inside' []).1] at bodies
      rw [bodies] at same
      simpa using same

theorem slash_alone {rest : List Char} (token : IsToken ('/' :: rest)) : rest = [] := by
  have operator : Lexeme .operator ('/' :: rest) := by
    obtain ⟨sort, lexeme⟩ := is_token_lexeme token
    rcases opened_front lexeme (List.prefix_refl _) with same | ⟨rfl, _⟩
    · cases opened_slash.symm.trans same
      exact lexeme
    · exact absurd token (silent_not_token (.inl lexeme))
  cases operator with
  | single => rfl
  | double mark => exact absurd mark (by decide)

-- No lexeme goes on from a token over a blank, unless a longer one stands before the blank.
theorem token_ended {piece between rest : List Char} {c : Char} (token : IsToken piece)
    (longest : Longest piece (piece ++ between)) (blank : c ∈ blankChars) :
    ¬ IsLexeme (piece ++ (between ++ c :: rest)) := by
  rintro ⟨sort, lexeme⟩
  obtain ⟨first, tail, rfl⟩ := lexeme_some longest.lexeme
  rcases blank_held lexeme blank (by simp) with rfl | rfl | alone
  · rcases opened_front lexeme (List.prefix_refl _) with opens | ⟨other, _⟩
    · have string := lexeme_front opens (by simp) longest.lexeme (List.prefix_refl _)
      have none := string_whole string lexeme
      simp at none
    · cases other
  · generalize whole : first :: tail ++ (between ++ c :: rest) = text at lexeme
    cases lexeme with
    | comment _ =>
      obtain ⟨rfl, behind⟩ := List.cons.inj whole
      obtain rfl := slash_alone token
      cases between with
      | nil =>
        have slash := (List.cons.inj behind).1
        exact absurd blank (slash ▸ by decide)
      | cons next between =>
        have slash : next = '/' := (List.cons.inj behind).1
        have comment : IsLexeme ['/', '/'] := ⟨.comment, @Lexeme.comment [] (by simp)⟩
        have two := longest.longest ['/', '/'] ⟨between, by rw [slash]; rfl⟩ comment
        exact absurd two (by decide)
  · simp at alone

theorem longest_blank {piece between after : List Char} (token : IsToken piece)
    (longest : Longest piece (piece ++ between)) (blank : ∀ c, after.head? = some c → c ∈ blankChars) :
    Longest piece (piece ++ (between ++ after)) := by
  refine ⟨List.prefix_append _ _, longest.lexeme, ?_⟩
  intro other inside lexeme
  have whole : piece ++ between <+: piece ++ (between ++ after) :=
    (List.prefix_append_right_inj piece).mpr (List.prefix_append _ _)
  by_cases short : other.length ≤ (piece ++ between).length
  · exact longest.longest other (List.prefix_of_prefix_length_le inside whole short) lexeme
  · obtain ⟨more, rfl⟩ := List.prefix_of_prefix_length_le whole inside (Nat.le_of_not_le short)
    rw [List.append_assoc] at inside lexeme
    cases more with
    | nil => simp at short
    | cons c more =>
      have later : c :: more <+: after := by simpa using inside
      obtain ⟨tail, rfl⟩ := later
      exact absurd lexeme (token_ended token longest (blank c rfl))

theorem of_source_blank {c : Char} (blank : c ∈ blankChars) (after : List Char) :
    Fragment.ofSource (c :: after) = ⟨.skipped, [c]⟩ :: Fragment.ofSource after := by
  simp only [blankChars, List.mem_cons, List.not_mem_nil, or_false] at blank
  rcases blank with rfl | rfl | rfl | rfl
  all_goals exact Fragment.of_source_cons _ after

end Lox
