import Lox.Proofs.Course
import Lox.Proofs.Doubles
import Lox.Proofs.Newline
import Lox.Proofs.Yield

set_option autoImplicit false

namespace Lox
namespace Decimal

theorem to_digits_all (n : Nat) : ∀ c ∈ Nat.toDigits 10 n, c.isDigit = true :=
  fun _ member => @Nat.isDigit_of_mem_toDigits 10 n _ (by decide) (by decide) member

theorem whole_digits_all (d : Decimal) : ∀ c ∈ d.wholeDigits, c.isDigit = true := to_digits_all _

theorem fraction_digits_all (d : Decimal) : ∀ c ∈ d.fractionDigits, c.isDigit = true := by
  intro c member
  rw [fractionDigits] at member
  split at member
  · cases member
  · rw [List.leftpad, List.mem_append] at member
    rcases member with padding | digit
    · rw [List.eq_of_mem_replicate padding]
      decide
    · exact to_digits_all _ c digit

theorem whole_digits_some (d : Decimal) : ∃ digit digits, d.wholeDigits = digit :: digits :=
  List.exists_cons_of_ne_nil Nat.toDigits_ne_nil

theorem pointed_cons (digit : Char) (digits fraction : List Char) :
    pointed (digit :: digits) fraction = digit :: pointed digits fraction := by
  cases fraction <;> rfl

theorem mem_pointed {c : Char} {whole fraction : List Char} (member : c ∈ pointed whole fraction) :
    c ∈ whole ∨ c = '.' ∨ c ∈ fraction := by
  cases fraction with
  | nil => exact .inl member
  | cons digit digits => simpa [pointed] using member

theorem text_unbroken (d : Decimal) : '\n' ∉ d.text := by
  intro member
  rcases mem_pointed member with whole | point | fraction
  · exact absurd (d.whole_digits_all _ whole) (by decide)
  · exact absurd point (by decide)
  · exact absurd (d.fraction_digits_all _ fraction) (by decide)

end Decimal

namespace Fragment

def EndsNumber (text : List Char) : Prop :=
  ∀ c, text.head? = some c → c.isDigit = false ∧ c ≠ '.'

theorem ends_number_fraction {text : List Char} (ends : EndsNumber text) : fractionDigits text = [] := by
  cases text with
  | nil => rfl
  | cons first rest =>
    have point : first ≠ '.' := (ends first rfl).2
    simp [fractionDigits, point]

theorem number_pointed {digit : Char} {digits fraction text : List Char}
    (whole : ∀ c ∈ digits, c.isDigit = true) (point : ∀ c ∈ fraction, c.isDigit = true)
    (ends : EndsNumber text) :
    number digit (Decimal.pointed digits fraction ++ text) =
      ⟨.token (.number (Decimal.ofDigits (digit :: digits) fraction).toFloat),
        Decimal.pointed (digit :: digits) fraction⟩ := by
  have stops : ∀ c, text.head? = some c → c.isDigit = false := fun c first => (ends c first).1
  cases fraction with
  | nil =>
    obtain ⟨front, back⟩ := front_exact whole stops
    rw [number, Decimal.pointed, front, back, ends_number_fraction ends]
  | cons next more =>
    have shape : Decimal.pointed digits (next :: more) ++ text =
        digits ++ '.' :: ((next :: more) ++ text) := by simp [Decimal.pointed]
    obtain ⟨front, back⟩ := front_stopped whole (by decide : '.'.isDigit = false) ((next :: more) ++ text)
    have fraction : fractionDigits ('.' :: ((next :: more) ++ text)) = next :: more :=
      (front_exact point stops).1
    rw [shape, number, front, back, fraction]

theorem cut_digit {first : Char} (rest : List Char) (digit : first.isDigit = true) :
    cut first rest = number first rest := by
  have quote : ¬ (first == '"') = true := by
    intro same
    rw [beq_iff_eq.mp same] at digit
    cases digit
  rw [cut, if_neg quote, if_pos digit]

theorem cut_pointed {digit : Char} {digits fraction text : List Char}
    (all : ∀ c ∈ digit :: digits, c.isDigit = true) (point : ∀ c ∈ fraction, c.isDigit = true)
    (ends : EndsNumber text) :
    cut digit (Decimal.pointed digits fraction ++ text) =
      ⟨.token (.number (Decimal.ofDigits (digit :: digits) fraction).toFloat),
        Decimal.pointed (digit :: digits) fraction⟩ := by
  rw [List.forall_mem_cons] at all
  exact (cut_digit _ all.1).trans (number_pointed all.2 point ends)

theorem of_source_fragment {first : Char} {front text : List Char} {content : Content}
    (here : cut first (front ++ text) = ⟨content, first :: front⟩) :
    ofSource (first :: (front ++ text)) = ⟨content, first :: front⟩ :: ofSource text := by
  rw [of_source_cons, here, List.length_cons, Nat.add_sub_cancel, List.drop_left]

theorem of_source_decimal (d : Decimal) {text : List Char} (ends : EndsNumber text) :
    ofSource (d.text ++ text) = ⟨.token (.number d.toFloat), d.text⟩ :: ofSource text := by
  obtain ⟨digit, digits, whole⟩ := d.whole_digits_some
  have all := d.whole_digits_all
  rw [whole] at all
  have written : Decimal.ofDigits (digit :: digits) d.fractionDigits = d := by
    rw [← whole, d.of_digits_text]
  have shape : d.text = digit :: Decimal.pointed digits d.fractionDigits := by
    rw [Decimal.text, whole, Decimal.pointed_cons]
  have here := cut_pointed all d.fraction_digits_all ends
  rw [written, Decimal.pointed_cons] at here
  rw [shape, List.cons_append]
  exact of_source_fragment here

theorem of_source_minus (text : List Char) :
    ofSource ('-' :: text) = ⟨.token (.mark .minus), ['-']⟩ :: ofSource text := by
  -- No mark of two characters starts with a minus, so what stands behind it does not matter.
  have pair (next : Char) : Mark.ofSpelling? (String.ofList ['-', next]) = none := by
    cases found : Mark.ofSpelling? (String.ofList ['-', next]) with
    | none => rfl
    | some mark =>
      have lexeme := (mark_lexeme found).2
      cases lexeme with
      | double double => exact absurd double (by decide)
  have here : cut '-' text = ⟨.token (.mark .minus), ['-']⟩ := by
    change mark '-' text = _
    cases text with
    | nil => rfl
    | cons next rest =>
      rw [mark, List.take_succ_cons, List.take_zero, pair]
      rfl
  exact @of_source_fragment '-' [] text _ here

theorem of_source_print (text : List Char) :
    ofSource ('p' :: 'r' :: 'i' :: 'n' :: 't' :: ' ' :: text) =
      ⟨.token (.keyword .print), ['p', 'r', 'i', 'n', 't']⟩ :: ⟨.skipped, [' ']⟩ :: ofSource text := by
  have word : cut 'p' (['r', 'i', 'n', 't'] ++ ' ' :: text) =
      ⟨.token (.keyword .print), ['p', 'r', 'i', 'n', 't']⟩ := by
    rfl
  have blank : cut ' ' ([] ++ text) = ⟨.skipped, [' ']⟩ := rfl
  exact (of_source_fragment word).trans (congrArg _ (of_source_fragment blank))

end Fragment

theorem from_line_unbroken {fragments : List Fragment} (line : Nat)
    (unbroken : '\n' ∉ fragments.flatMap Fragment.text) :
    Placed.fromLine line fragments = fragments.map (Placed.mk · line) := by
  induction fragments with
  | nil => rfl
  | cons fragment rest ih =>
    rw [List.flatMap_cons, List.mem_append, not_or] at unbroken
    have none : fragment.breaks = 0 := List.count_eq_zero.mpr unbroken.1
    rw [Placed.fromLine, none, Nat.add_zero, ih unbroken.2, List.map_cons]

theorem scan_unbroken {source : String} (unbroken : '\n' ∉ source.toList) :
    scan source =
      ⟨((Fragment.ofSource source.toList).map (Placed.mk · 1)).filterMap Placed.token? ++ [.atEnd 1],
        ((Fragment.ofSource source.toList).map (Placed.mk · 1)).filterMap Placed.diagnostic?⟩ := by
  have lines : source.toList.count '\n' = 0 := List.count_eq_zero.mpr unbroken
  have placed := from_line_unbroken 1 ((Fragment.of_source_texts source.toList).symm ▸ unbroken)
  simp only [scan_lines, placed, lines]

namespace Number

def digits (x : Float) : List Char := (Decimal.shortest (Binary64.magnitude x)).text

def minus : Token := ⟨.mark .minus, "-", 1⟩

def fragments (x : Float) : List Fragment :=
  let size : Fragment := ⟨.token (.number x.abs), digits x⟩
  if Binary64.isNegative x then [⟨.token (.mark .minus), ['-']⟩, size] else [size]

def tokens (x : Float) : List Token :=
  let size : Token := ⟨.number x.abs, String.ofList (digits x), 1⟩
  if Binary64.isNegative x then [minus, size] else [size]

-- The sign is an operator, so a negative number is no literal.
def expr (x : Float) : Expr :=
  let size : Expr := .literal (.number x.abs)
  if Binary64.isNegative x then .unary minus size else size

-- Said of any text, so that no digits are computed where the shape of a text is compared.
theorem signed_text (size after : List Char) :
    ("-" ++ String.ofList size).toList ++ after = '-' :: (size ++ after) := by simp

theorem closed_text (text : String) : (text ++ ";").toList = text.toList ++ [';'] := by simp

theorem printed_text (text : String) : ("print " ++ text ++ ";").toList =
    'p' :: 'r' :: 'i' :: 'n' :: 't' :: ' ' :: (text.toList ++ [';']) := by simp

theorem digits_unbroken (x : Float) : '\n' ∉ digits x := Decimal.text_unbroken _

section

variable {x : Float} (finite : x.isFinite = true)
include finite

theorem text_finite (infinity : String) :
    text infinity x = if Binary64.isNegative x then "-" ++ String.ofList (digits x)
      else String.ofList (digits x) := by
  have bound := Binary64.magnitude_finite finite
  rw [text, if_neg (Nat.not_lt_of_gt bound), if_neg (Nat.ne_of_lt bound)]
  rfl

theorem text_unbroken (infinity : String) : '\n' ∉ (text infinity x).toList := by
  have free := digits_unbroken x
  rw [text_finite finite]
  split <;> simpa using free

theorem of_source_digits {after : List Char} (ends : Fragment.EndsNumber after) :
    Fragment.ofSource (digits x ++ after) =
      ⟨.token (.number x.abs), digits x⟩ :: Fragment.ofSource after := by
  have value : (Decimal.shortest (Binary64.magnitude x)).toFloat = x.abs := by
    rw [Decimal.toFloat, Decimal.shortest_encoding _ (Binary64.magnitude_finite finite),
      Binary64.of_magnitude_abs finite]
  rw [digits, Fragment.of_source_decimal _ ends, value]

theorem of_source_text (infinity : String) {after : List Char} (ends : Fragment.EndsNumber after) :
    Fragment.ofSource ((text infinity x).toList ++ after) = fragments x ++ Fragment.ofSource after := by
  have size := of_source_digits finite ends
  rw [text_finite finite, fragments]
  split
  · rw [signed_text, Fragment.of_source_minus, size, List.cons_append, List.singleton_append]
  · rw [String.toList_ofList, size, List.singleton_append]

theorem eval_expr (env : Env) : (expr x).eval env = .ok (.number x) := by
  rw [expr]
  by_cases sign : Binary64.isNegative x = true
  · rw [if_pos sign]
    change Except.ok (Value.number (-x.abs)) = _
    rw [Binary64.neg_abs finite sign]
  · rw [if_neg sign]
    change Except.ok (Value.number x.abs) = _
    rw [Binary64.abs_positive finite (by simpa using sign)]

end

theorem fragments_tokens (x : Float) :
    ((fragments x).map (Placed.mk · 1)).filterMap Placed.token? = tokens x := by
  have size : Placed.token? ⟨⟨.token (.number x.abs), digits x⟩, 1⟩ =
      some ⟨.number x.abs, String.ofList (digits x), 1⟩ := by
    simp [Placed.token?, Placed.lastLine, Fragment.breaks, List.count_eq_zero.mpr (digits_unbroken x)]
  have sign : Placed.token? ⟨⟨.token (.mark .minus), ['-']⟩, 1⟩ = some minus := rfl
  rw [fragments, tokens]
  split
  · rw [List.map_cons, List.map_singleton, List.filterMap_cons_some sign,
      List.filterMap_cons_some size, List.filterMap_nil]
  · rw [List.map_singleton, List.filterMap_cons_some size, List.filterMap_nil]

theorem fragments_faultless (x : Float) :
    ((fragments x).map (Placed.mk · 1)).filterMap Placed.diagnostic? = [] := by
  rw [fragments]
  split <;> rfl

theorem tokens_derive (x : Float) : Derives .equality (tokens x) (expr x) := by
  have size : Derives .unary [⟨.number x.abs, String.ofList (digits x), 1⟩] (.literal (.number x.abs)) :=
    .literal rfl
  rw [tokens, expr]
  split
  · exact derives_loosen (by decide) (.sign (.inr rfl) size)
  · exact derives_loosen (by decide) size

theorem scan_around {x : Float} {source : String} {before after : List Fragment}
    (unbroken : '\n' ∉ source.toList)
    (whole : Fragment.ofSource source.toList = before ++ (fragments x ++ after)) :
    scan source =
      ⟨(before.map (Placed.mk · 1)).filterMap Placed.token? ++
          (tokens x ++ (after.map (Placed.mk · 1)).filterMap Placed.token?) ++ [.atEnd 1],
        (before.map (Placed.mk · 1)).filterMap Placed.diagnostic? ++
          (after.map (Placed.mk · 1)).filterMap Placed.diagnostic?⟩ := by
  rw [scan_unbroken unbroken, whole]
  simp only [List.map_append, List.filterMap_append, fragments_tokens, fragments_faultless,
    List.nil_append]

section

variable {x : Float} (finite : x.isFinite = true)
include finite

theorem scan_text : scan (Value.number x).text = ⟨tokens x ++ [.atEnd 1], []⟩ := by
  have whole := @of_source_text x finite "Infinity" [] (by simp [Fragment.EndsNumber])
  rw [List.append_nil] at whole
  rw [Value.text, @scan_around x _ [] [] (text_unbroken finite _) whole]
  simp

theorem of_source_closed : Fragment.ofSource ((text "Infinity" x).toList ++ [';']) =
    fragments x ++ [⟨.token (.mark .semicolon), [';']⟩] := by
  refine of_source_text finite "Infinity" ?_
  intro c first
  cases first
  decide

theorem scan_closed :
    scan ((Value.number x).text ++ ";") = ⟨tokens x ++ [⟨.mark .semicolon, ";", 1⟩, .atEnd 1], []⟩ := by
  have unbroken : '\n' ∉ (text "Infinity" x ++ ";").toList := by simp [text_unbroken finite]
  have whole : Fragment.ofSource (text "Infinity" x ++ ";").toList =
      [] ++ (fragments x ++ [⟨.token (.mark .semicolon), [';']⟩]) := by
    rw [closed_text, of_source_closed finite, List.nil_append]
  rw [Value.text, scan_around unbroken whole, List.append_assoc, List.append_assoc]
  rfl

theorem scan_print :
    scan ("print " ++ (Value.number x).text ++ ";") =
      ⟨⟨.keyword .print, "print", 1⟩ :: (tokens x ++ [⟨.mark .semicolon, ";", 1⟩, .atEnd 1]), []⟩ := by
  have unbroken : '\n' ∉ ("print " ++ text "Infinity" x ++ ";").toList := by
    simp [text_unbroken finite]
  have whole : Fragment.ofSource ("print " ++ text "Infinity" x ++ ";").toList =
      [⟨.token (.keyword .print), ['p', 'r', 'i', 'n', 't']⟩, ⟨.skipped, [' ']⟩] ++
        (fragments x ++ [⟨.token (.mark .semicolon), [';']⟩]) := by
    rw [printed_text, Fragment.of_source_print, of_source_closed finite]
    rfl
  rw [Value.text, scan_around unbroken whole, List.append_assoc, List.append_assoc]
  rfl

theorem read_closed : Program.read (scan ((Value.number x).text ++ ";")).tokens =
    ⟨[.expression (expr x)], []⟩ := by
  rw [scan_closed finite, List.append_cons]
  exact Program.read_declares (.expression (tokens_derive x) rfl) rfl

theorem read_print : Program.read (scan ("print " ++ (Value.number x).text ++ ";")).tokens =
    ⟨[.print (expr x)], []⟩ := by
  rw [scan_print finite, List.append_cons, ← List.cons_append]
  exact Program.read_declares (.print rfl (tokens_derive x) rfl) rfl

theorem run_print {machine : Machine} (reliable : machine.sink.Reliable) :
    machine.run ("print " ++ (Value.number x).text ++ ";") =
      ((machine.afterAll [.print ((Value.number x).text ++ "\n")]).flushed, ⟨[], .ok .completed⟩) :=
  Machine.run_prints reliable (congrArg Scan.errors (scan_print finite)) (read_print finite)
    (eval_expr finite machine.env)

end

end Number

theorem number_read_back {x : Float} (finite : x.isFinite = true) :
    (scan (Value.number x).text).errors = [] ∧
    (Binary64.isNegative x = false →
      (scan (Value.number x).text).tokens = [⟨.number x, (Value.number x).text, 1⟩, .atEnd 1]) ∧
    (Binary64.isNegative x = true → ∃ size, (Value.number x).text = "-" ++ size ∧
      (scan (Value.number x).text).tokens =
        [⟨.mark .minus, "-", 1⟩, ⟨.number x.abs, size, 1⟩, .atEnd 1]) ∧
    (scan ((Value.number x).text ++ ";")).errors = [] ∧
    (∃ value, Program.read (scan ((Value.number x).text ++ ";")).tokens = ⟨[.expression value], []⟩ ∧
      ∀ env, value.eval env = .ok (.number x)) ∧
    ∀ machine : Machine, machine.sink.Reliable →
      (machine.run ("print " ++ (Value.number x).text ++ ";")).2 = ⟨[], .ok .completed⟩ ∧
      (machine.run ("print " ++ (Value.number x).text ++ ";")).1.env = machine.env ∧
      (machine.run ("print " ++ (Value.number x).text ++ ";")).1.sink.written =
        machine.sink.written ++ ((Value.number x).text ++ "\n").toUTF8 := by
  have tokens := congrArg Scan.tokens (Number.scan_text finite)
  have text : (Value.number x).text = _ := Number.text_finite finite "Infinity"
  refine ⟨congrArg Scan.errors (Number.scan_text finite), ?_, ?_,
    congrArg Scan.errors (Number.scan_closed finite),
    ⟨_, Number.read_closed finite, Number.eval_expr finite⟩, ?_⟩
  · intro clear
    rw [tokens, text, Number.tokens, clear, Binary64.abs_positive finite clear]
    rfl
  · intro sign
    refine ⟨String.ofList (Number.digits x), ?_, ?_⟩
    · rw [text, if_pos sign]
    · rw [tokens, Number.tokens, if_pos sign]
      rfl
  · intro machine reliable
    rw [Number.run_print finite reliable]
    refine ⟨rfl, rfl, ?_⟩
    simp [Machine.flushed, Machine.afterAll, Sink.flush, Effect.output]

def Number.least : Float := Float.ofBits 0x8000000000000001

theorem number_read_back_least :
    Number.least.isFinite = true ∧ Binary64.isNegative Number.least = true ∧
    (scan (Value.number Number.least).text).errors = [] ∧
    (∃ size, (Value.number Number.least).text = "-" ++ size ∧
      (scan (Value.number Number.least).text).tokens =
        [⟨.mark .minus, "-", 1⟩, ⟨.number Number.least.abs, size, 1⟩, .atEnd 1]) ∧
    (∃ value,
      Program.read (scan ((Value.number Number.least).text ++ ";")).tokens = ⟨[.expression value], []⟩ ∧
      ∀ env, value.eval env = .ok (.number Number.least)) ∧
    ((Machine.new (.new none false)).run ("print " ++ (Value.number Number.least).text ++ ";")).2 =
      ⟨[], .ok .completed⟩ := by
  have finite : Number.least.isFinite = true := by decide +kernel
  have sign : Binary64.isNegative Number.least = true := by decide +kernel
  obtain ⟨clean, _, signed, _, reads, runs⟩ := number_read_back finite
  exact ⟨finite, sign, clean, signed sign, reads, (runs _ ⟨rfl, rfl⟩).1⟩

end Lox
