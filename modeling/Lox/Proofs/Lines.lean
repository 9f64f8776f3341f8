import Lox.Proofs.MaximalMunch

set_option autoImplicit false

namespace Lox

def lineAt (source : List Char) (place : Nat) : Nat := 1 + (source.take place).count '\n'

structure Span where
  start : Nat
  stop : Nat

namespace Span

def text (span : Span) (source : List Char) : List Char := source.extract span.start span.stop

def Tile (source : List Char) : Nat → List Span → Prop
  | place, [] => place = source.length
  | place, span :: rest =>
    span.start = place ∧ place < span.stop ∧ Munch (span.text source) (source.drop place) ∧
      Tile source span.stop rest

end Span

structure Token.Fills (source : List Char) (span : Span) (token : Token) : Prop where
  lexeme : token.lexeme = String.ofList (span.text source)
  line : token.line = lineAt source span.stop

def Diagnostic.Blames (source : List Char) (span : Span) (diagnostic : Diagnostic) : Prop :=
  diagnostic = .scan (lineAt source span.start)
    (if source[span.start]? = some '"' then "Unterminated string." else "Unexpected character.")

structure Span.Places (source : List Char) (span : Span) (placed : Placed) : Prop where
  text : span.text source = placed.fragment.text
  start : lineAt source span.start = placed.line
  stop : lineAt source span.stop = placed.lastLine
  first : source[span.start]? = placed.fragment.text.head?
  cut : ∃ text, Cut placed.fragment text

theorem line_at_mono (source : List Char) {a b : Nat} (before : a ≤ b) :
    lineAt source a ≤ lineAt source b :=
  Nat.add_le_add_left ((List.take_prefix_take_left before).sublist.count_le '\n') 1

namespace Span

theorem text_middle (before piece after : List Char) :
    text ⟨before.length, before.length + piece.length⟩ (before ++ (piece ++ after)) = piece := by
  rw [text, List.extract_eq_take_drop, List.drop_left, Nat.add_sub_cancel_left, List.take_left]

theorem places_middle (before after : List Char) {fragment : Fragment} (some : fragment.text ≠ [])
    (cut : ∃ text, Cut fragment text) :
    Places (before ++ (fragment.text ++ after)) ⟨before.length, before.length + fragment.text.length⟩
      ⟨fragment, 1 + before.count '\n'⟩ where
  text := text_middle before fragment.text after
  start := by rw [lineAt, List.take_left]
  stop := by
    rw [lineAt, List.take_length_add_append, List.take_left, List.count_append, ← Nat.add_assoc]
    rfl
  first := by
    obtain ⟨c, rest, whole⟩ := List.exists_cons_of_ne_nil some
    simp [whole]
  cut := cut

theorem cut_append (first : Char) (rest : List Char) :
    (Fragment.cut first rest).text ++ rest.drop ((Fragment.cut first rest).text.length - 1) =
      first :: rest := by
  obtain ⟨tail, text, inside⟩ := Fragment.cut_text first rest
  rw [text, List.length_cons, Nat.add_sub_cancel, List.cons_append,
    List.prefix_iff_eq_append.mp inside]

-- The induction is on what is left of the source; what stands before it grows.
theorem tile_source (before rest : List Char) :
    ∃ spans, Tile (before ++ rest) before.length spans ∧
      List.Forall₂ (Places (before ++ rest)) spans
        (Placed.fromLine (1 + before.count '\n') (Fragment.ofSource rest)) := by
  induction rest using Fragment.cut_induction generalizing before with
  | nil => exact ⟨[], by simp [Tile], .nil⟩
  | cons first rest ih =>
    have cut := Fragment.cut_cut first rest
    have some : (Fragment.cut first rest).text ≠ [] := by
      obtain ⟨tail, text, _⟩ := Fragment.cut_text first rest
      simp [text]
    rw [Fragment.of_source_cons, Placed.fromLine]
    have whole := cut_append first rest
    generalize rest.drop ((Fragment.cut first rest).text.length - 1) = after at ih whole ⊢
    generalize Fragment.cut first rest = fragment at *
    rw [← whole] at cut ⊢
    obtain ⟨spans, tile, places⟩ := ih (before ++ fragment.text)
    rw [List.append_assoc, List.length_append] at tile
    rw [List.append_assoc, List.count_append, ← Nat.add_assoc] at places
    refine ⟨⟨before.length, before.length + fragment.text.length⟩ :: spans,
      ⟨rfl, ?_, ?_, tile⟩, .cons (places_middle before after some ⟨_, cut⟩) places⟩
    · exact Nat.lt_add_of_pos_right (List.length_pos_iff.mpr some)
    · rw [text_middle, List.drop_left]
      exact cut.munch

theorem tile_sorted {source : List Char} {place : Nat} {spans : List Span}
    (tile : Tile source place spans) :
    (∀ span ∈ spans, place ≤ span.start ∧ span.start ≤ span.stop) ∧
      spans.Pairwise fun a b => a.start ≤ b.start ∧ a.stop ≤ b.stop := by
  induction spans generalizing place with
  | nil => exact ⟨by simp, .nil⟩
  | cons span rest ih =>
    obtain ⟨rfl, some, _, later⟩ := tile
    obtain ⟨above, sorted⟩ := ih later
    refine ⟨List.forall_mem_cons.mpr ⟨⟨Nat.le_refl _, Nat.le_of_lt some⟩, ?_⟩, .cons ?_ sorted⟩
    · intro other member
      exact ⟨Nat.le_trans (Nat.le_of_lt some) (above other member).1, (above other member).2⟩
    · intro other member
      obtain ⟨start, stop⟩ := above other member
      exact ⟨Nat.le_trans (Nat.le_of_lt some) start, Nat.le_trans start stop⟩

end Span

theorem token_line {placed : Placed} {token : Token} (found : placed.token? = some token) :
    token.line = placed.lastLine := by
  obtain ⟨⟨content, text⟩, line⟩ := placed
  cases content with
  | token kind => cases found; rfl
  | _ => cases found

theorem diagnostic_line {placed : Placed} {diagnostic : Diagnostic}
    (found : placed.diagnostic? = some diagnostic) : diagnostic.line = placed.line := by
  obtain ⟨⟨content, text⟩, line⟩ := placed
  cases content with
  | fault cause => cases found; rfl
  | _ => cases found

theorem token_fills {source : List Char} (span : Span) (placed : Placed)
    (places : span.Places source placed) :
    (IsToken (span.text source) ∧ ∃ token, placed.token? = some token ∧ token.Fills source span) ∨
      (¬ IsToken (span.text source) ∧ placed.token? = none) := by
  obtain ⟨text, cut⟩ := places.cut
  rw [places.text]
  rcases cut_token cut placed.line with ⟨token, result, found, reads⟩ | missing
  · refine .inl ⟨token, result, found, ?_, ?_⟩
    · rw [reads.lexeme, places.text]
    · rw [token_line found, places.stop]
  · exact .inr missing

theorem diagnostic_blames {source : List Char} (span : Span) (placed : Placed)
    (places : span.Places source placed) :
    (¬ IsLexeme (span.text source) ∧ ∃ diagnostic, placed.diagnostic? = some diagnostic ∧
        diagnostic.Blames source span) ∨
      (¬ ¬ IsLexeme (span.text source) ∧ placed.diagnostic? = none) := by
  obtain ⟨text, cut⟩ := places.cut
  rw [places.text]
  rcases cut_diagnostic cut placed.line with ⟨fault, result, found, line, told⟩ | missing
  · refine .inl ⟨fault, result, found, ?_⟩
    have same := diagnostic_line found
    rw [told] at same
    rw [Diagnostic.Blames, places.start, places.first, told, ← same]
    rfl
  · exact .inr missing

theorem blames_line {source : List Char} {span : Span} {diagnostic : Diagnostic}
    (blames : diagnostic.Blames source span) : diagnostic.line = lineAt source span.start := by
  rw [blames]
  rfl

theorem line_at_le (source : List Char) (place : Nat) :
    lineAt source place ≤ 1 + source.count '\n' :=
  Nat.add_le_add_left ((List.take_sublist place source).count_le '\n') 1

theorem lines_sorted {Result : Type} {source : List Char} {line : Result → Nat} {place : Span → Nat}
    {spans : List Span} {results : List Result}
    (told : List.Forall₂ (fun span result => line result = lineAt source (place span)) spans results)
    (sorted : spans.Pairwise fun a b => place a ≤ place b) :
    (results.map line).Pairwise (· ≤ ·) ∧
      ∀ found ∈ results.map line, found ≤ 1 + source.count '\n' := by
  have same : results.map line = spans.map fun span => lineAt source (place span) := by
    clear sorted
    induction told with
    | nil => rfl
    | cons first _ ih => rw [List.map_cons, List.map_cons, first, ih]
  rw [same, List.pairwise_map, List.forall_mem_map]
  exact ⟨sorted.imp (line_at_mono source), fun span _ => line_at_le source (place span)⟩

open Classical in
theorem lines_exact (source : String) :
    ∃ spans, Span.Tile source.toList 0 spans ∧
      (∃ tokens, (scan source).tokens = tokens ++ [⟨.eof, "", 1 + source.toList.count '\n'⟩] ∧
        List.Forall₂ (Token.Fills source.toList)
          (spans.filter fun span => IsToken (span.text source.toList)) tokens) ∧
      List.Forall₂ (Diagnostic.Blames source.toList)
        (spans.filter fun span => ¬ IsLexeme (span.text source.toList)) (scan source).errors ∧
      ((scan source).tokens.map Token.line).Pairwise (· ≤ ·) ∧
      ((scan source).errors.map Diagnostic.line).Pairwise (· ≤ ·) := by
  obtain ⟨spans, tile, places⟩ := Span.tile_source [] source.toList
  have tokens := read_companions token_fills places
  have errors := read_companions diagnostic_blames places
  have sorted := (Span.tile_sorted tile).2
  rw [scan_lines]
  refine ⟨spans, tile, ⟨_, rfl, tokens⟩, errors, ?_, ?_⟩
  · obtain ⟨inOrder, below⟩ := lines_sorted (tokens.imp fun span token fills => fills.line)
      ((sorted.imp And.right).filter _)
    change (List.map Token.line (_ ++ [Token.atEnd _])).Pairwise _
    rw [List.map_append, List.pairwise_append]
    refine ⟨inOrder, List.pairwise_singleton _ _, ?_⟩
    intro line member last ends
    rw [List.mem_singleton.mp ends]
    exact below line member
  · exact (lines_sorted (errors.imp fun span diagnostic blames => blames_line blames)
      ((sorted.imp And.left).filter _)).1

end Lox
