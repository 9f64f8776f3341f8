import Lox.Proofs.Lines
import Lox.Proofs.Spacing

set_option autoImplicit false

namespace Lox

open Classical in
noncomputable def mended (piece : List Char) : List Char :=
  if IsLexeme piece then piece
  else if piece.head? = some '"' then piece.filter (· = '\n')
  else [' ']

noncomputable def mendedText (source : List Char) : List Char :=
  (Fragment.ofSource source).flatMap fun fragment => mended fragment.text

theorem mended_lexeme {piece : List Char} (lexeme : IsLexeme piece) : mended piece = piece :=
  if_pos lexeme

-- What is at fault is either all that is left, from a quote on, or one character.
theorem mended_fault {fragment : Fragment} {text : List Char} (cut : Cut fragment text)
    (fault : ¬ IsLexeme fragment.text) :
    (fragment.text = text ∧ mended fragment.text = text.filter (· = '\n')) ∨
      (fragment.text = text.take 1 ∧ text.head? ≠ some '\n' ∧ mended fragment.text = [' ']) := by
  cases cut with
  | token longest _ _ => exact absurd longest.lexeme fault
  | skipped longest _ => exact absurd longest.lexeme fault
  | openString none quote => exact .inl ⟨rfl, by rw [mended, if_neg fault, if_pos quote]⟩
  | stray none other =>
    refine .inr ⟨rfl, ?_, ?_⟩
    · intro first
      obtain ⟨rest, rfl⟩ := List.head?_eq_some_iff.mp first
      exact none ['\n'] ⟨rest, rfl⟩ ⟨.blank, .blank (by decide)⟩
    · have other : (text.take 1).head? ≠ some '"' := by simpa [List.head?_take] using other
      rw [mended, if_neg fault, if_neg other]

theorem mended_text_cons (first : Char) (rest : List Char) :
    mendedText (first :: rest) = mended (Fragment.cut first rest).text ++
      mendedText (rest.drop ((Fragment.cut first rest).text.length - 1)) := by
  rw [mendedText, Fragment.of_source_cons, List.flatMap_cons]
  rfl

theorem mended_text_nil : mendedText [] = [] := rfl

theorem mended_text_break (rest : List Char) : mendedText ('\n' :: rest) = '\n' :: mendedText rest := by
  have blank : IsLexeme ['\n'] := ⟨.blank, .blank (by decide)⟩
  rw [mended_text_cons]
  change mended ['\n'] ++ _ = _
  rw [mended_lexeme blank]
  rfl

theorem breaks_blank (text : List Char) : ∀ c ∈ text.filter (· = '\n'), c ∈ blankChars := by
  intro c member
  obtain rfl : c = '\n' := by simpa using (List.mem_filter.mp member).2
  decide

theorem breaks_filler (text : List Char) : Filler (text.filter (· = '\n')) := by
  have all := breaks_blank text
  generalize text.filter (· = '\n') = breaks at all ⊢
  induction breaks with
  | nil => exact .nil
  | cons c rest ih =>
    rw [List.forall_mem_cons] at all
    exact .blank all.1 (ih all.2)

theorem Longest.front {piece front text : List Char} (longest : Longest piece text)
    (inside : piece <+: front) (short : front <+: text) : Longest piece front :=
  ⟨inside, longest.lexeme, fun other before => longest.longest other (before.trans short)⟩

theorem mended_front (source : List Char) : ∃ common faulty blanked, source = common ++ faulty ∧
    mendedText source = common ++ blanked ∧ ∀ c, blanked.head? = some c → c ∈ blankChars := by
  induction source using Fragment.cut_induction with
  | nil => exact ⟨[], [], [], rfl, rfl, by simp⟩
  | cons first rest ih =>
    have whole := Span.cut_append first rest
    have cut := Fragment.cut_cut first rest
    rw [mended_text_cons]
    generalize rest.drop ((Fragment.cut first rest).text.length - 1) = after at ih whole ⊢
    generalize Fragment.cut first rest = fragment at *
    by_cases lexeme : IsLexeme fragment.text
    · obtain ⟨common, faulty, blanked, split, same, blank⟩ := ih
      refine ⟨fragment.text ++ common, faulty, blanked, ?_, ?_, blank⟩
      · rw [← whole, split, List.append_assoc]
      · rw [mended_lexeme lexeme, same, List.append_assoc]
    · refine ⟨[], first :: rest, mended fragment.text ++ mendedText after, rfl, rfl, ?_⟩
      rcases mended_fault cut lexeme with ⟨all, breaks⟩ | ⟨_, _, space⟩
      · have last : after = [] := by simpa [all] using whole
        intro c front
        rw [last, mended_text_nil, List.append_nil, breaks] at front
        exact breaks_blank _ c (List.mem_of_mem_head? front)
      · rw [space]
        intro c front
        cases front
        decide

theorem comment_ends {piece after : List Char} (comment : Lexeme .comment piece)
    (longest : Longest piece (piece ++ after)) : ∀ c, after.head? = some c → c = '\n' := by
  intro c front
  obtain ⟨rest, rfl⟩ := List.head?_eq_some_iff.mp front
  by_contra other
  cases comment with
  | @comment body inside =>
    have longer : Lexeme .comment ('/' :: '/' :: (body ++ [c])) := by
      refine .comment ?_
      rw [List.mem_append, List.mem_singleton, not_or]
      exact ⟨inside, Ne.symm other⟩
    have bound := longest.longest _ ⟨rest, by simp⟩ ⟨_, longer⟩
    simp at bound

theorem mended_kept {fragment : Fragment} {text after : List Char} (cut : Cut fragment text)
    (whole : fragment.text ++ after = text) (lexeme : IsLexeme fragment.text) :
    Fragment.ofSource (fragment.text ++ mendedText after) =
      fragment :: Fragment.ofSource (mendedText after) := by
  have again := cut
  cases cut with
  | token longest token spells =>
    obtain ⟨common, faulty, blanked, split, mended, blank⟩ := mended_front after
    rw [← whole, split, ← List.append_assoc] at longest
    have short := longest.front (List.prefix_append _ _) (List.prefix_append _ _)
    rw [mended]
    exact of_source_longest again (longest_blank token short blank)
  | skipped longest silent =>
    rcases silent with comment | blank
    · have ends := comment_ends comment (whole ▸ longest)
      cases comment with
      | comment inside =>
        refine of_source_comment inside ?_
        cases after with
        | nil => simp [mended_text_nil]
        | cons c rest =>
          obtain rfl := ends c rfl
          simp [mended_text_break]
    · cases blank with
      | blank blank => exact of_source_blank blank _
  | openString none _ => exact absurd lexeme (none _ (List.prefix_refl _))
  | stray none _ => exact absurd lexeme (none _ (List.take_prefix _ _))

theorem mended_filler {fragment : Fragment} {text : List Char} (cut : Cut fragment text)
    (fault : ¬ IsLexeme fragment.text) : Filler (mended fragment.text) := by
  rcases mended_fault cut fault with ⟨_, breaks⟩ | ⟨_, _, space⟩
  · rw [breaks]
    exact breaks_filler text
  · rw [space]
    exact .blank (by decide) .nil

theorem mended_lines {fragment : Fragment} {text : List Char} (cut : Cut fragment text) :
    (mended fragment.text).count '\n' = fragment.text.count '\n' := by
  by_cases lexeme : IsLexeme fragment.text
  · rw [mended_lexeme lexeme]
  · rcases mended_fault cut lexeme with ⟨all, breaks⟩ | ⟨one, unbroken, space⟩
    · rw [breaks, all]
      exact List.count_filter (by simp)
    · rw [space, one]
      cases text with
      | nil => rfl
      | cons c rest =>
        have other : c ≠ '\n' := by simpa using unbroken
        simp [other]

theorem mended_scanned (source : List Char) (line : Nat) :
    (Placed.fromLine line (Fragment.ofSource (mendedText source))).filterMap Placed.token? =
        (Placed.fromLine line (Fragment.ofSource source)).filterMap Placed.token? ∧
      (Placed.fromLine line (Fragment.ofSource (mendedText source))).filterMap Placed.diagnostic? = [] ∧
      (mendedText source).count '\n' = source.count '\n' := by
  induction source using Fragment.cut_induction generalizing line with
  | nil => exact ⟨rfl, rfl, rfl⟩
  | cons first rest ih =>
    have whole := Span.cut_append first rest
    have cut := Fragment.cut_cut first rest
    rw [mended_text_cons, Fragment.of_source_cons, Placed.fromLine, ← whole]
    generalize rest.drop ((Fragment.cut first rest).text.length - 1) = after at ih whole ⊢
    generalize Fragment.cut first rest = fragment at *
    obtain ⟨tokens, errors, lines⟩ := ih (line + fragment.breaks)
    rw [List.count_append, List.count_append, mended_lines cut, lines]
    by_cases lexeme : IsLexeme fragment.text
    · have clean : Placed.diagnostic? ⟨fragment, line⟩ = none := by
        rcases cut_diagnostic cut line with ⟨none, _⟩ | ⟨_, clean⟩
        · exact absurd lexeme none
        · exact clean
      rw [mended_lexeme lexeme, mended_kept cut whole lexeme, Placed.fromLine, List.filterMap_cons,
        List.filterMap_cons, List.filterMap_cons, clean, tokens, errors]
      exact ⟨rfl, rfl, rfl⟩
    · have missing : Placed.token? ⟨fragment, line⟩ = none := by
        rcases cut_token cut line with ⟨token, _⟩ | ⟨_, missing⟩
        · exact absurd (is_token_lexeme token) lexeme
        · exact missing
      obtain ⟨gapTokens, gapErrors⟩ := filler_read (mended_filler cut lexeme) (mendedText after) line
      rw [gapTokens, gapErrors, mended_lines cut, List.filterMap_cons_none missing]
      exact ⟨tokens, errors, rfl⟩

open Classical in
theorem scan_mended (source : String) :
    ∃ pieces : List (List Char), pieces.flatten = source.toList ∧ Munched pieces ∧
      List.Forall₂ Diagnostic.Complains (pieces.filter (¬ IsLexeme ·)) (scan source).errors ∧
      scan (String.ofList (pieces.flatMap mended)) = ⟨(scan source).tokens, []⟩ := by
  obtain ⟨tokens, errors, lines⟩ := mended_scanned source.toList 1
  refine ⟨(Fragment.ofSource source.toList).map Fragment.text, ?_, of_source_munched _, ?_, ?_⟩
  · rw [← List.flatMap_def, Fragment.of_source_texts]
  · refine placed_read ?_ 1
    intro fragment member line
    obtain ⟨text, cut⟩ := of_source_cuts source.toList fragment member
    exact cut_diagnostic cut line
  · rw [List.flatMap_map]
    change scan (String.ofList (mendedText source.toList)) = _
    rw [scan_lines, scan_lines, String.toList_ofList, tokens, errors, lines]

end Lox
