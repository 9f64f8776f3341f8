import Lox.Proofs.Spacing

set_option autoImplicit false

namespace Lox

def printing (texts : List String) : String :=
  "print " ++ String.intercalate " + " (texts.map fun text => "\"" ++ text ++ "\"") ++ ";"

namespace Summands

def text : List String → List Char
  | [] => [';']
  | text :: rest => ' ' :: '+' :: ' ' :: '"' :: (text.toList ++ '"' :: Summands.text rest)

def fragments : List String → List Fragment
  | [] => [⟨.token (.mark .semicolon), [';']⟩]
  | text :: rest =>
    ⟨.skipped, [' ']⟩ :: ⟨.token (.mark .plus), ['+']⟩ :: ⟨.skipped, [' ']⟩ ::
      ⟨.token (.string text), '"' :: (text.toList ++ ['"'])⟩ :: fragments rest

def kinds : List String → List TokenKind
  | [] => [.mark .semicolon]
  | text :: rest => .mark .plus :: .string text :: kinds rest

end Summands

theorem printing_text (first : String) (rest : List String) : (printing (first :: rest)).toList =
    'p' :: 'r' :: 'i' :: 'n' :: 't' :: ' ' :: '"' :: (first.toList ++ '"' :: Summands.text rest) := by
  have behind : (String.intercalate " + " ((first :: rest).map fun text => "\"" ++ text ++ "\"") ++
      ";").toList = '"' :: (first.toList ++ '"' :: Summands.text rest) := by
    induction rest generalizing first with
    | nil => simp [Summands.text]
    | cons next rest ih =>
      have later := ih next
      simp only [List.map_cons, String.intercalate_cons_cons, String.append_assoc, String.toList_append,
        Summands.text] at later ⊢
      rw [later]
      simp
  rw [printing, String.append_assoc, String.toList_append, behind]
  rfl

namespace Fragment

theorem of_source_string {text : String} (unquoted : '"' ∉ text.toList) (after : List Char) :
    ofSource ('"' :: (text.toList ++ '"' :: after)) =
      ⟨.token (.string text), '"' :: (text.toList ++ ['"'])⟩ :: ofSource after := by
  have shape : text.toList ++ '"' :: after = (text.toList ++ ['"']) ++ after := by simp
  have closed := quoted_closed unquoted after
  rw [String.ofList_toList, shape] at closed
  rw [shape]
  exact of_source_fragment closed

theorem of_source_plus (after : List Char) :
    ofSource (' ' :: '+' :: ' ' :: after) =
      ⟨.skipped, [' ']⟩ :: ⟨.token (.mark .plus), ['+']⟩ :: ⟨.skipped, [' ']⟩ :: ofSource after := by
  have blank : ∀ c, (' ' :: after).head? = some c → c ∈ blankChars := by
    intro c first
    cases first
    decide
  have plus := of_source_token (.mark .plus) blank
  rw [of_source_blank (by decide), ← of_source_blank (by decide)]
  exact congrArg _ plus

theorem of_source_summands {texts : List String} (unquoted : ∀ text ∈ texts, '"' ∉ text.toList) :
    ofSource (Summands.text texts) = Summands.fragments texts := by
  induction texts with
  | nil => rfl
  | cons text rest ih =>
    obtain ⟨here, later⟩ := List.forall_mem_cons.mp unquoted
    rw [Summands.text, of_source_plus, of_source_string here, ih later, Summands.fragments]

def kind? (fragment : Fragment) : Option TokenKind :=
  match fragment.content with
  | .token kind => some kind
  | _ => none

end Fragment

theorem placed_kinds (line : Nat) (fragments : List Fragment) :
    ((Placed.fromLine line fragments).filterMap Placed.token?).map Token.kind =
      fragments.filterMap Fragment.kind? := by
  have each : (fun placed => (Placed.token? placed).map Token.kind) = Fragment.kind? ∘ Placed.fragment := by
    funext placed
    obtain ⟨⟨content, text⟩, line⟩ := placed
    cases content <;> rfl
  rw [List.map_filterMap, each, ← List.filterMap_map, Placed.from_line_fragments]

theorem placed_faultless (line : Nat) {fragments : List Fragment}
    (sound : ∀ fragment ∈ fragments, ∀ cause, fragment.content ≠ .fault cause) :
    (Placed.fromLine line fragments).filterMap Placed.diagnostic? = [] := by
  rw [List.filterMap_eq_nil_iff]
  intro placed member
  have sound := sound _ (Placed.from_line_mem member)
  rw [Placed.diagnostic?]
  split
  · exact absurd ‹_› (sound _)
  · rfl

theorem summands_kinds (texts : List String) :
    (Summands.fragments texts).filterMap Fragment.kind? = Summands.kinds texts := by
  induction texts with
  | nil => rfl
  | cons text rest ih =>
    rw [Summands.kinds, ← ih]
    rfl

theorem summands_faultless (texts : List String) :
    ∀ fragment ∈ Summands.fragments texts, ∀ cause, fragment.content ≠ .fault cause := by
  induction texts with
  | nil => simp [Summands.fragments]
  | cons text rest ih => simpa [Summands.fragments] using ih

theorem scan_printing {first : String} {rest : List String}
    (unquoted : ∀ text ∈ first :: rest, '"' ∉ text.toList) :
    (scan (printing (first :: rest))).errors = [] ∧
      ∃ tokens last, (scan (printing (first :: rest))).tokens = tokens ++ [last] ∧ last.isEnd = true ∧
        tokens.map Token.kind = .keyword .print :: .string first :: Summands.kinds rest := by
  obtain ⟨here, later⟩ := List.forall_mem_cons.mp unquoted
  have cut : Fragment.ofSource (printing (first :: rest)).toList =
      ⟨.token (.keyword .print), ['p', 'r', 'i', 'n', 't']⟩ :: ⟨.skipped, [' ']⟩ ::
        ⟨.token (.string first), '"' :: (first.toList ++ ['"'])⟩ :: Summands.fragments rest := by
    rw [printing_text, Fragment.of_source_print, Fragment.of_source_string here,
      Fragment.of_source_summands later]
  refine ⟨?_, textTokens (printing (first :: rest)).toList, _, scan_tokens _, rfl, ?_⟩
  · rw [scan, cut]
    refine placed_faultless 1 ?_
    simpa using summands_faultless rest
  · rw [textTokens, cut, placed_kinds, ← summands_kinds]
    rfl

theorem summands_derive {before tokens : List Token} {rest : List String} {left : Expr} {sum : String}
    (kinds : tokens.map Token.kind = Summands.kinds rest) (derived : Derives .term before left)
    (value : ∀ env, left.eval env = .ok (.string sum)) :
    ∃ front semicolon whole, tokens = front ++ [semicolon] ∧ semicolon.kind = .mark .semicolon ∧
      Derives .term (before ++ front) whole ∧
      ∀ env, whole.eval env = .ok (.string (sum ++ String.join rest)) := by
  induction rest generalizing before tokens left sum with
  | nil =>
    obtain ⟨semicolon, rfl, ends⟩ := List.map_eq_singleton_iff.mp kinds
    exact ⟨[], semicolon, left, rfl, ends, by rwa [List.append_nil], by simpa using value⟩
  | cons text rest ih =>
    obtain ⟨plus, behind, rfl, joins, kinds⟩ := List.map_eq_cons_iff.mp kinds
    obtain ⟨string, later, rfl, spells, kinds⟩ := List.map_eq_cons_iff.mp kinds
    have operand : Derives .factor [string] (.literal (.string text)) :=
      .operand (.literal spells)
    have chain : Derives .term (before ++ plus :: [string]) (.binary left plus (.literal (.string text))) :=
      .chain derived ⟨.plus, by decide, joins⟩ operand
    have added (env : Env) : (Expr.binary left plus (.literal (.string text))).eval env =
        .ok (.string (sum ++ text)) := by
      rw [Expr.eval, value env, joins]
      rfl
    obtain ⟨front, semicolon, whole, rfl, ends, derived, value⟩ := ih kinds chain added
    refine ⟨plus :: string :: front, semicolon, whole, rfl, ends, by simpa using derived, ?_⟩
    simpa [String.append_assoc] using value

theorem read_printing {first : String} {rest : List String}
    (unquoted : ∀ text ∈ first :: rest, '"' ∉ text.toList) :
    ∃ e, Program.read (scan (printing (first :: rest))).tokens = ⟨[.print e], []⟩ ∧
      ∀ env, e.eval env = .ok (.string (String.join (first :: rest))) := by
  obtain ⟨_, tokens, last, scanned, ended, kinds⟩ := scan_printing unquoted
  obtain ⟨word, behind, rfl, prints, kinds⟩ := List.map_eq_cons_iff.mp kinds
  obtain ⟨string, later, rfl, spells, kinds⟩ := List.map_eq_cons_iff.mp kinds
  have operand : Derives .term [string] (.literal (.string first)) :=
    .operand (.operand (.literal spells))
  obtain ⟨front, semicolon, whole, rfl, ends, derived, value⟩ :=
    summands_derive kinds operand fun _ => rfl
  refine ⟨whole, ?_, ?_⟩
  · rw [scanned]
    exact Program.read_declares (.print prints (derives_loosen (by decide) derived) ends) ended
  · rw [String.join_cons]
    exact value

theorem run_concatenated {machine : Machine} (reliable : machine.sink.Reliable) {texts : List String}
    (some : texts ≠ []) (unquoted : ∀ text ∈ texts, '"' ∉ text.toList) :
    (machine.run (printing texts)).2 = ⟨[], .ok .completed⟩ ∧
      (machine.run (printing texts)).1.env = machine.env ∧
      (machine.run (printing texts)).1.sink.written =
        machine.sink.written ++ (String.join texts ++ "\n").toUTF8 := by
  obtain ⟨first, rest, rfl⟩ := List.exists_cons_of_ne_nil some
  obtain ⟨e, reads, value⟩ := read_printing unquoted
  rw [Machine.run_prints reliable (scan_printing unquoted).1 reads (value machine.env)]
  refine ⟨rfl, rfl, ?_⟩
  simp [Machine.flushed, Machine.afterAll, Sink.flush, Effect.output, Value.text]

-- What stands between quotes is a comment, the end of a statement, nothing, or no ASCII.
def awkward : List String := ["// a\n", "; \\", "", "+ é\x00"]

theorem run_concatenated_awkward :
    ((Sink.new none false).Reliable ∧ awkward ≠ [] ∧ ∀ text ∈ awkward, '"' ∉ text.toList) ∧
    printing awkward = "print \"// a\n\" + \"; \\\" + \"\" + \"+ é\x00\";" ∧
    ((Machine.new (.new none false)).run (printing awkward)).2 = ⟨[], .ok .completed⟩ ∧
    ((Machine.new (.new none false)).run (printing awkward)).1.env = .empty ∧
    ((Machine.new (.new none false)).run (printing awkward)).1.sink.written =
      ByteArray.empty ++ (String.join awkward ++ "\n").toUTF8 := by
  have some : awkward ≠ [] := by decide
  have unquoted : ∀ text ∈ awkward, '"' ∉ text.toList := by decide +kernel
  exact ⟨⟨⟨rfl, rfl⟩, some, unquoted⟩, by decide +kernel, run_concatenated ⟨rfl, rfl⟩ some unquoted⟩

end Lox
