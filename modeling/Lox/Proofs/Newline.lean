import Lox.Proofs.MaximalMunch

set_option autoImplicit false

namespace Lox

theorem take_while_stop {p : Char → Bool} {stop : Char} (fails : ¬ p stop = true)
    (before after : List Char) : (before ++ stop :: after).takeWhile p = before.takeWhile p := by
  induction before with
  | nil => exact List.takeWhile_cons_of_neg fails
  | cons first rest ih => rw [List.cons_append, List.takeWhile_cons, List.takeWhile_cons, ih]

theorem drop_while_stop {p : Char → Bool} {stop : Char} (fails : ¬ p stop = true)
    (before after : List Char) :
    (before ++ stop :: after).dropWhile p = before.dropWhile p ++ stop :: after := by
  induction before with
  | nil => exact List.dropWhile_cons_of_neg fails
  | cons first rest ih =>
    rw [List.cons_append, List.dropWhile_cons, List.dropWhile_cons, ih]
    split <;> rfl

theorem take_while_inside {p : Char → Bool} {before : List Char}
    (stops : ∃ c ∈ before, ¬ p c = true) (after : List Char) :
    (before ++ after).takeWhile p = before.takeWhile p := by
  obtain ⟨c, member, fails⟩ := stops
  obtain ⟨front, back, rfl⟩ := List.append_of_mem member
  rw [List.append_assoc, List.cons_append, take_while_stop fails, take_while_stop fails]

namespace Fragment

def IsOpen (fragment : Fragment) : Prop := fragment.content = .fault .unterminatedString

theorem fraction_digits_newline (before after : List Char) :
    fractionDigits (before ++ '\n' :: after) = fractionDigits before := by
  cases before with
  | nil => rfl
  | cons first rest =>
    by_cases point : first = '.'
    · subst point
      exact take_while_stop (by decide) rest after
    · simp [fractionDigits, point]

theorem quoted_newline (before after : List Char) (closed : ¬ (quoted before).IsOpen) :
    quoted (before ++ '\n' :: after) = quoted before := by
  by_cases quote : '"' ∈ before
  · have inside : '"' ∈ before ++ '\n' :: after := List.mem_append_left _ quote
    have body := take_while_inside (p := (· != '"')) ⟨_, quote, by simp⟩ ('\n' :: after)
    dsimp only [quoted]
    rw [if_pos quote, if_pos inside, body]
  · dsimp only [quoted] at closed
    rw [if_neg quote] at closed
    exact absurd rfl closed

theorem mark_newline (first : Char) (before after : List Char) :
    mark first (before ++ '\n' :: after) = mark first before := by
  cases before with
  | cons next rest => rfl
  | nil =>
    have pair : Mark.ofSpelling? (String.ofList [first, '\n']) = none := by
      cases found : Mark.ofSpelling? (String.ofList [first, '\n']) with
      | none => rfl
      | some mark =>
        have lexeme := (mark_lexeme found).2
        cases lexeme
    simp only [mark, List.nil_append, List.take_succ_cons, List.take_zero, List.take_nil, pair]
    cases Mark.ofSpelling? (String.ofList [first]) <;> rfl

theorem cut_newline (first : Char) (before after : List Char) (closed : ¬ (cut first before).IsOpen) :
    cut first (before ++ '\n' :: after) = cut first before := by
  rw [cut] at closed
  rw [cut, cut]
  by_cases quote : (first == '"') = true
  · rw [if_pos quote] at closed
    rw [if_pos quote, if_pos quote, quoted_newline before after closed]
  · rw [if_neg quote, if_neg quote]
    by_cases digit : first.isDigit = true
    · rw [if_pos digit, if_pos digit, number, number, take_while_stop (by decide),
        drop_while_stop (by decide), fraction_digits_newline]
    · rw [if_neg digit, if_neg digit]
      by_cases starts : startsName first = true
      · rw [if_pos starts, if_pos starts, word, word, take_while_stop (by decide)]
      · have next : ((before ++ '\n' :: after).head? == some '/') = (before.head? == some '/') := by
          cases before <;> rfl
        rw [if_neg starts, if_neg starts, next, comment, comment, take_while_stop (by decide),
          mark_newline]

theorem of_source_break (after : List Char) :
    ofSource ('\n' :: after) = ⟨.skipped, ['\n']⟩ :: ofSource after := of_source_cons '\n' after

theorem of_source_newline (before after : List Char)
    (closed : ∀ fragment ∈ ofSource before, ¬ fragment.IsOpen) :
    ofSource (before ++ '\n' :: after) =
      ofSource before ++ ⟨.skipped, ['\n']⟩ :: ofSource after := by
  induction before using cut_induction with
  | nil => exact of_source_break after
  | cons first rest ih =>
    rw [of_source_cons, List.forall_mem_cons] at closed
    obtain ⟨tail, text, inside⟩ := cut_text first rest
    have bound : (cut first rest).text.length - 1 ≤ rest.length := by
      rw [text, List.length_cons, Nat.add_sub_cancel]
      exact inside.length_le
    rw [List.cons_append, of_source_cons, of_source_cons, cut_newline first rest after closed.1,
      List.drop_append_of_le_length bound, ih closed.2, List.cons_append]

end Fragment

def Token.down (lines : Nat) (token : Token) : Token := { token with line := token.line + lines }

def Diagnostic.down (lines : Nat) : Diagnostic → Diagnostic
  | .scan line message => .scan (line + lines) message
  | .parse line location message => .parse (line + lines) location message
  | .runtime line lexeme message => .runtime (line + lines) lexeme message

def Placed.down (lines : Nat) (placed : Placed) : Placed := { placed with line := placed.line + lines }

namespace Placed

theorem token_down (lines : Nat) (placed : Placed) :
    (placed.down lines).token? = placed.token?.map (Token.down lines) := by
  obtain ⟨⟨content, text⟩, line⟩ := placed
  cases content with
  | token kind => simp [token?, down, lastLine, Token.down, Nat.add_right_comm]
  | _ => rfl

theorem diagnostic_down (lines : Nat) (placed : Placed) :
    (placed.down lines).diagnostic? = placed.diagnostic?.map (Diagnostic.down lines) := by
  obtain ⟨⟨content, text⟩, line⟩ := placed
  cases content <;> rfl

theorem from_line_down (line lines : Nat) (fragments : List Fragment) :
    fromLine (line + lines) fragments = (fromLine line fragments).map (down lines) := by
  induction fragments generalizing line with
  | nil => rfl
  | cons first rest ih =>
    rw [fromLine, fromLine, List.map_cons, ← ih, Nat.add_right_comm]
    rfl

theorem from_line_append (line : Nat) (first second : List Fragment) :
    fromLine line (first ++ second) =
      fromLine line first ++ fromLine (line + (first.flatMap Fragment.text).count '\n') second := by
  induction first generalizing line with
  | nil => rfl
  | cons fragment rest ih =>
    rw [List.cons_append, fromLine, fromLine, ih, List.flatMap_cons, List.count_append,
      ← Nat.add_assoc]
    rfl

end Placed

def sourceLines (source : String) : Nat := source.toList.count '\n' + 1

def textTokens (text : List Char) : List Token :=
  (Placed.fromLine 1 (Fragment.ofSource text)).filterMap Placed.token?

theorem scan_tokens (source : String) :
    (scan source).tokens = textTokens source.toList ++ [.atEnd (sourceLines source)] := by
  rw [scan_lines, sourceLines, Nat.add_comm]
  rfl

theorem text_tokens_no_end (text : List Char) : ∀ token ∈ textTokens text, token.kind ≠ .eof := by
  intro token member
  obtain ⟨placed, inside, found⟩ := List.mem_filterMap.mp member
  obtain ⟨rest, cut⟩ := of_source_cuts text _ (Placed.from_line_mem inside)
  obtain ⟨fragment, line⟩ := placed
  have cut : Cut fragment rest := cut
  cases cut with
  | token _ _ spells =>
    cases found
    cases spells <;> simp
  | _ => cases found

theorem closed_of_told {source : String}
    (told : ∀ error ∈ (scan source).errors, error.message ≠ "Unterminated string.") :
    ∀ fragment ∈ Fragment.ofSource source.toList, ¬ fragment.IsOpen := by
  intro fragment member opened
  rw [← Placed.from_line_fragments 1 (Fragment.ofSource source.toList)] at member
  obtain ⟨placed, inside, rfl⟩ := List.mem_map.mp member
  have found : placed.diagnostic? = some (.scan placed.line "Unterminated string.") := by
    rw [Placed.diagnostic?, opened]
    rfl
  exact told _ (List.mem_filterMap.mpr ⟨placed, inside, found⟩) rfl

theorem closed_of_clean {source : String} (clean : (scan source).errors = []) :
    ∀ fragment ∈ Fragment.ofSource source.toList, ¬ fragment.IsOpen := by
  apply closed_of_told
  rw [clean]
  simp

theorem placed_newline (before after : List Char)
    (closed : ∀ fragment ∈ Fragment.ofSource before, ¬ fragment.IsOpen) :
    Placed.fromLine 1 (Fragment.ofSource (before ++ '\n' :: after)) =
      Placed.fromLine 1 (Fragment.ofSource before) ++
        ⟨⟨.skipped, ['\n']⟩, 1 + before.count '\n'⟩ ::
          (Placed.fromLine 1 (Fragment.ofSource after)).map (Placed.down (before.count '\n' + 1)) := by
  have line : 1 + before.count '\n' + Fragment.breaks ⟨.skipped, ['\n']⟩ =
      1 + (before.count '\n' + 1) := Nat.add_assoc 1 _ 1
  rw [Fragment.of_source_newline before after closed, Placed.from_line_append,
    Fragment.of_source_texts, Placed.fromLine, line, Placed.from_line_down]

theorem scan_newline {before : String} (after : String)
    (closed : ∀ fragment ∈ Fragment.ofSource before.toList, ¬ fragment.IsOpen) :
    (scan (before ++ "\n" ++ after)).tokens =
        textTokens before.toList ++ (scan after).tokens.map (Token.down (sourceLines before)) ∧
      (scan (before ++ "\n" ++ after)).errors =
        (scan before).errors ++ (scan after).errors.map (Diagnostic.down (sourceLines before)) := by
  have text : (before ++ "\n" ++ after).toList = before.toList ++ '\n' :: after.toList := by simp
  have placed := placed_newline before.toList after.toList closed
  have tokens : textTokens (before.toList ++ '\n' :: after.toList) = textTokens before.toList ++
      (textTokens after.toList).map (Token.down (sourceLines before)) := by
    rw [textTokens, placed, List.filterMap_append, List.filterMap_cons_none rfl, List.filterMap_map,
      textTokens, textTokens, List.map_filterMap]
    congr 2
    funext placed
    exact placed.token_down _
  have last : Token.atEnd (sourceLines (before ++ "\n" ++ after)) =
      (Token.atEnd (sourceLines after)).down (sourceLines before) := by
    simp only [sourceLines, text, List.count_append, List.count_cons_self, Token.atEnd, Token.down]
    congr 1
    omega
  refine ⟨?_, ?_⟩
  · rw [scan_tokens, scan_tokens, text, tokens, last, List.map_append, List.append_assoc]
    rfl
  · change (Placed.fromLine 1 (Fragment.ofSource (before ++ "\n" ++ after).toList)).filterMap
      Placed.diagnostic? = _
    rw [text, placed, List.filterMap_append, List.filterMap_cons_none rfl, List.filterMap_map]
    refine congrArg (_ ++ ·) ?_
    rw [scan, List.map_filterMap]
    congr 1
    funext placed
    exact placed.diagnostic_down _

theorem scan_joined {before : String}
    (closed : ∀ error ∈ (scan before).errors, error.message ≠ "Unterminated string.")
    (after : String) :
    ∃ tokens, (scan before).tokens = tokens ++ [⟨.eof, "", 1 + before.toList.count '\n'⟩] ∧
      (scan (before ++ "\n" ++ after)).tokens =
        tokens ++ (scan after).tokens.map (Token.down (1 + before.toList.count '\n')) ∧
      (scan (before ++ "\n" ++ after)).errors =
        (scan before).errors ++
          (scan after).errors.map (Diagnostic.down (1 + before.toList.count '\n')) := by
  have lines : sourceLines before = 1 + before.toList.count '\n' := Nat.add_comm _ _
  obtain ⟨tokens, errors⟩ := scan_newline after (closed_of_told closed)
  rw [lines] at tokens errors
  refine ⟨textTokens before.toList, ?_, tokens, errors⟩
  rw [scan_lines]
  rfl

theorem scan_joined_faulty :
    (∀ error ∈ (scan "a # 3.").errors, error.message ≠ "Unterminated string.") ∧
    ∃ tokens, (scan "a # 3.").tokens = tokens ++ [⟨.eof, "", 1 + "a # 3.".toList.count '\n'⟩] ∧
      (scan ("a # 3." ++ "\n" ++ "5 \"\nb")).tokens =
        tokens ++ (scan "5 \"\nb").tokens.map (Token.down (1 + "a # 3.".toList.count '\n')) ∧
      (scan ("a # 3." ++ "\n" ++ "5 \"\nb")).errors =
        (scan "a # 3.").errors ++
          (scan "5 \"\nb").errors.map (Diagnostic.down (1 + "a # 3.".toList.count '\n')) := by
  have closed : ∀ error ∈ (scan "a # 3.").errors, error.message ≠ "Unterminated string." := by
    decide +kernel
  exact ⟨closed, scan_joined closed _⟩

end Lox
