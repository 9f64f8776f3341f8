import Lox.Proofs.Blanks
import Lox.Proofs.Layout

set_option autoImplicit false

namespace Lox

theorem of_source_token {kind : TokenKind} {piece after : List Char} (spells : Spells kind piece)
    (blank : ∀ c, after.head? = some c → c ∈ blankChars) :
    Fragment.ofSource (piece ++ after) = ⟨.token kind, piece⟩ :: Fragment.ofSource after := by
  have token := spells_token spells
  have longest := longest_self (is_token_lexeme token)
  have cut : Cut ⟨.token kind, piece⟩ piece := .token longest token spells
  have alone : Longest piece (piece ++ []) := by rwa [List.append_nil]
  exact of_source_longest cut (longest_blank token alone blank)

theorem of_source_comment {body after : List Char} (inside : '\n' ∉ body)
    (ends : ∀ c, after.head? = some c → c = '\n') :
    Fragment.ofSource ('/' :: '/' :: (body ++ after)) =
      ⟨.skipped, '/' :: '/' :: body⟩ :: Fragment.ofSource after := by
  have stops : ∀ c, after.head? = some c → (c != '\n') = false := by
    intro c first
    rw [ends c first]
    exact bne_self_eq_false '\n'
  have whole := (front_exact (all_other_iff.mpr inside) stops).1
  have here : Fragment.cut '/' (('/' :: body) ++ after) = ⟨.skipped, '/' :: '/' :: body⟩ := by
    change Fragment.comment ('/' :: (body ++ after)) = _
    rw [Fragment.comment, List.takeWhile_cons_of_pos (by decide), whole]
  exact Fragment.of_source_fragment here

inductive Filler : List Char → Prop where
  | nil : Filler []
  | blank {c : Char} {rest : List Char} (blank : c ∈ blankChars) (later : Filler rest) :
      Filler (c :: rest)
  | comment {body rest : List Char} (inside : '\n' ∉ body) (later : Filler rest) :
      Filler ('/' :: '/' :: (body ++ '\n' :: rest))

inductive Separator : List Char → Prop where
  | intro {c : Char} {rest : List Char} (blank : c ∈ blankChars) (filler : Filler rest) :
      Separator (c :: rest)

inductive WrittenOut : List Token → List Char → Prop where
  | none : WrittenOut [] []
  | last (token : Token) : WrittenOut [token] token.lexeme.toList
  | next (token : Token) {next : Token} {later : List Token} {gap text : List Char}
      (separator : Separator gap) (rest : WrittenOut (next :: later) text) :
      WrittenOut (token :: next :: later) (token.lexeme.toList ++ (gap ++ text))

theorem filler_skipped {filler : List Char} (fills : Filler filler) (after : List Char) :
    ∃ skipped : List Fragment, (∀ fragment ∈ skipped, fragment.content = .skipped) ∧
      skipped.flatMap Fragment.text = filler ∧
      Fragment.ofSource (filler ++ after) = skipped ++ Fragment.ofSource after := by
  induction fills with
  | nil => exact ⟨[], by simp, rfl, rfl⟩
  | @blank c rest blank _ ih =>
    obtain ⟨skipped, silent, texts, cut⟩ := ih
    refine ⟨⟨.skipped, [c]⟩ :: skipped, List.forall_mem_cons.mpr ⟨rfl, silent⟩, ?_, ?_⟩
    · rw [List.flatMap_cons, texts, List.singleton_append]
    · rw [List.cons_append, of_source_blank blank, cut, List.cons_append]
  | @comment body rest inside _ ih =>
    obtain ⟨skipped, silent, texts, cut⟩ := ih
    refine ⟨⟨.skipped, '/' :: '/' :: body⟩ :: ⟨.skipped, ['\n']⟩ :: skipped, ?_, ?_, ?_⟩
    · exact List.forall_mem_cons.mpr ⟨rfl, List.forall_mem_cons.mpr ⟨rfl, silent⟩⟩
    · simp [texts]
    · rw [List.cons_append, List.cons_append, List.append_assoc, List.cons_append,
        of_source_comment inside (by simp), of_source_blank (by decide), cut]
      rfl

theorem placed_skipped {skipped : List Fragment}
    (silent : ∀ fragment ∈ skipped, fragment.content = .skipped) (line : Nat) :
    (Placed.fromLine line skipped).filterMap Placed.token? = [] ∧
      (Placed.fromLine line skipped).filterMap Placed.diagnostic? = [] := by
  rw [List.filterMap_eq_nil_iff, List.filterMap_eq_nil_iff]
  refine ⟨?_, ?_⟩
  all_goals
    intro placed member
    have content := silent _ (Placed.from_line_mem member)
    simp [Placed.token?, Placed.diagnostic?, content]

theorem filler_read {filler : List Char} (fills : Filler filler) (after : List Char) (line : Nat) :
    (Placed.fromLine line (Fragment.ofSource (filler ++ after))).filterMap Placed.token? =
        (Placed.fromLine (line + filler.count '\n') (Fragment.ofSource after)).filterMap Placed.token? ∧
      (Placed.fromLine line (Fragment.ofSource (filler ++ after))).filterMap Placed.diagnostic? =
        (Placed.fromLine (line + filler.count '\n')
          (Fragment.ofSource after)).filterMap Placed.diagnostic? := by
  obtain ⟨skipped, silent, texts, cut⟩ := filler_skipped fills after
  obtain ⟨noToken, noError⟩ := placed_skipped silent line
  rw [cut, Placed.from_line_append, texts, List.filterMap_append, List.filterMap_append, noToken,
    noError]
  exact ⟨rfl, rfl⟩

def Token.Spelled (token : Token) : Prop := Spells token.kind token.lexeme.toList

theorem text_tokens_spelled (text : List Char) : ∀ token ∈ textTokens text, token.Spelled := by
  intro token member
  obtain ⟨⟨fragment, line⟩, inside, found⟩ := List.mem_filterMap.mp member
  obtain ⟨rest, cut⟩ := of_source_cuts text _ (Placed.from_line_mem inside)
  rcases cut_token cut line with ⟨_, result, same, reads⟩ | ⟨_, missing⟩
  · cases same.symm.trans found
    rw [Token.Spelled, reads.lexeme, String.toList_ofList]
    exact reads.kind
  · cases missing.symm.trans found

-- The induction is on what is written; the line only grows, and is no part of what is compared.
theorem written_out_scanned {tokens : List Token} {text : List Char} (out : WrittenOut tokens text)
    (spelled : ∀ token ∈ tokens, token.Spelled) (line : Nat) :
    List.Forall₂ Token.SameText tokens
        ((Placed.fromLine line (Fragment.ofSource text)).filterMap Placed.token?) ∧
      (Placed.fromLine line (Fragment.ofSource text)).filterMap Placed.diagnostic? = [] := by
  have same (token : Token) (line : Nat) :
      token.SameText ⟨token.kind, String.ofList token.lexeme.toList, line⟩ :=
    ⟨rfl, String.ofList_toList.symm⟩
  induction out generalizing line with
  | none => exact ⟨.nil, rfl⟩
  | last token =>
    have cut := @of_source_token _ _ [] (spelled token (.head _)) (by simp)
    rw [List.append_nil] at cut
    rw [cut]
    exact ⟨.cons (same token _) .nil, rfl⟩
  | @next token other later gap text separator _ ih =>
    cases separator with
    | @intro c rest blank filler =>
      obtain ⟨first, others⟩ := List.forall_mem_cons.mp spelled
      have stops : ∀ first, (c :: rest ++ text).head? = some first → first ∈ blankChars := by
        intro first front
        cases front
        exact blank
      have cut := of_source_token first stops
      obtain ⟨gapTokens, gapErrors⟩ := filler_read (.blank blank filler) text
        (line + Fragment.breaks ⟨.token token.kind, token.lexeme.toList⟩)
      rw [cut, Placed.fromLine, List.filterMap_cons, List.filterMap_cons, gapTokens, gapErrors]
      obtain ⟨tokens, errors⟩ := ih others _
      exact ⟨.cons (same token _) tokens, errors⟩

theorem scan_written_out {source written : String} {tokens : List Token} {last : Token}
    (scanned : (scan source).tokens = tokens ++ [last]) (out : WrittenOut tokens written.toList) :
    (scan written).errors = [] ∧
      ∃ again, (scan written).tokens = again ++ [⟨.eof, "", 1 + written.toList.count '\n'⟩] ∧
        List.Forall₂ Token.SameText tokens again := by
  have found : tokens = textTokens source.toList :=
    (List.append_inj' (scanned.symm.trans (scan_tokens source)) rfl).1
  have spelled := text_tokens_spelled source.toList
  rw [← found] at spelled
  obtain ⟨again, clean⟩ := written_out_scanned out spelled 1
  rw [scan_lines]
  exact ⟨clean, _, rfl, again⟩

def muddled : String := "3.x#\"//\n\"/= \"open"

def muddledTokens : List Token :=
  [⟨.number (Decimal.ofDigits ['3'] []).toFloat, "3", 1⟩, ⟨.mark .dot, ".", 1⟩,
    ⟨.identifier, "x", 1⟩, ⟨.string "//\n", "\"//\n\"", 2⟩, ⟨.mark .slash, "/", 2⟩,
    ⟨.mark .equal, "=", 2⟩]

def spread : String := "3 .\n// \"5\n\tx \"//\n\" /\r//\n="

theorem scan_written_out_muddled :
    ((scan muddled).errors.length = 2 ∧ (scan muddled).tokens = muddledTokens ++ [.atEnd 2] ∧
      WrittenOut muddledTokens spread.toList) ∧
    (scan spread).errors = [] ∧
    ∃ again, (scan spread).tokens = again ++ [⟨.eof, "", 1 + spread.toList.count '\n'⟩] ∧
      List.Forall₂ Token.SameText muddledTokens again := by
  have scanned : (scan muddled).tokens = muddledTokens ++ [.atEnd 2] := by rfl
  have blank {c : Char} (blank : c ∈ blankChars) : Separator [c] := .intro blank .nil
  have remark : Separator ['\n', '/', '/', ' ', '"', '5', '\n', '\t'] :=
    .intro (by decide) (@Filler.comment [' ', '"', '5'] _ (by decide) (.blank (by decide) .nil))
  have empty : Separator ['\r', '/', '/', '\n'] :=
    .intro (by decide) (@Filler.comment [] _ (by decide) .nil)
  have out : WrittenOut muddledTokens spread.toList :=
    .next _ (@blank ' ' (by decide)) (.next _ remark (.next _ (@blank ' ' (by decide))
      (.next _ (@blank ' ' (by decide)) (.next _ empty (.last _)))))
  exact ⟨⟨by decide +kernel, scanned, out⟩, scan_written_out scanned out⟩

end Lox
