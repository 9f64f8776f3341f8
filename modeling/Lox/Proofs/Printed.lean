import Lox.Proofs.FirstFailure
import Lox.Proofs.Layout
import Lox.Proofs.Outcome
import Lox.Proofs.ReadBack
import Lox.Proofs.Spacing

set_option autoImplicit false

namespace Lox

inductive Prefixed where
  | word (text : List Char)
  | one (head : List Char) (part : Prefixed)
  | two (head : List Char) (left right : Prefixed)

namespace Prefixed

def text : Prefixed → List Char
  | .word text => text
  | .one head part => '(' :: (head ++ ' ' :: (part.text ++ [')']))
  | .two head left right => '(' :: (head ++ ' ' :: (left.text ++ ' ' :: (right.text ++ [')'])))

def parts (c : Char) : Bool := c == ' ' || c == '(' || c == ')'

def Solid (word : List Char) : Prop := word ≠ [] ∧ ∀ c ∈ word, parts c = false

def Solids : Prefixed → Prop
  | .word text => Solid text
  | .one head part => ' ' ∉ head ∧ part.Solids
  | .two head left right => ' ' ∉ head ∧ left.Solids ∧ right.Solids

def Stops (text : List Char) : Prop := ∀ c, text.head? = some c → c = ' ' ∨ c = ')'

theorem stops_cons {c : Char} (stop : c = ' ' ∨ c = ')') (rest : List Char) : Stops (c :: rest) := by
  intro first same
  cases same
  exact stop

theorem word_unique {a b r s : List Char} (solidA : Solid a) (solidB : Solid b) (stopsR : Stops r)
    (stopsS : Stops s) (same : a ++ r = b ++ s) : a = b ∧ r = s := by
  have inside {word : List Char} (solid : Solid word) : ∀ c ∈ word, (!parts c) = true := by
    intro c member
    rw [solid.2 c member]
    rfl
  have outside {rest : List Char} (stops : Stops rest) : ∀ c, rest.head? = some c → (!parts c) = false := by
    intro c first
    rcases stops c first with rfl | rfl <;> rfl
  obtain ⟨frontA, backA⟩ := front_exact (inside solidA) (outside stopsR)
  obtain ⟨frontB, backB⟩ := front_exact (inside solidB) (outside stopsS)
  rw [same] at frontA backA
  exact ⟨frontA.symm.trans frontB, backA.symm.trans backB⟩

theorem head_unique {a b r s : List Char} (insideA : ' ' ∉ a) (insideB : ' ' ∉ b)
    (same : a ++ ' ' :: r = b ++ ' ' :: s) : a = b ∧ r = s := by
  have stop : (' ' != ' ') = false := by decide
  obtain ⟨frontA, backA⟩ := front_stopped (all_other_iff.mpr insideA) stop r
  obtain ⟨frontB, backB⟩ := front_stopped (all_other_iff.mpr insideB) stop s
  rw [same] at frontA backA
  have tails := backA.symm.trans backB
  exact ⟨frontA.symm.trans frontB, by simpa using tails⟩

theorem word_opened {word r s : List Char} (solid : Solid word) : word ++ r ≠ '(' :: s := by
  obtain ⟨some, all⟩ := solid
  cases word with
  | nil => exact absurd rfl some
  | cons first rest =>
    intro same
    injection same with opens
    have other := all first (.head _)
    rw [opens] at other
    cases other

theorem stops_space (rest : List Char) : Stops (' ' :: rest) := stops_cons (.inl rfl) rest

theorem stops_paren (rest : List Char) : Stops (')' :: rest) := stops_cons (.inr rfl) rest

theorem text_one (head : List Char) (part : Prefixed) (rest : List Char) :
    (one head part).text ++ rest = '(' :: (head ++ ' ' :: (part.text ++ ')' :: rest)) := by
  simp [text]

theorem text_two (head : List Char) (left right : Prefixed) (rest : List Char) :
    (two head left right).text ++ rest =
      '(' :: (head ++ ' ' :: (left.text ++ ' ' :: (right.text ++ ')' :: rest))) := by
  simp [text]

-- Both are read from the left: what a part is followed by tells whether another part comes.
theorem text_unique {a : Prefixed} : ∀ {b : Prefixed} {r s : List Char}, a.Solids → b.Solids →
    Stops r → Stops s → a.text ++ r = b.text ++ s → a = b ∧ r = s := by
  induction a with
  | word word =>
    intro b r s solidA solidB stopsR stopsS same
    cases b with
    | word other =>
      obtain ⟨words, rests⟩ := word_unique solidA solidB stopsR stopsS same
      exact ⟨congrArg _ words, rests⟩
    | one head part =>
      rw [text_one] at same
      exact absurd same (word_opened solidA)
    | two head left right =>
      rw [text_two] at same
      exact absurd same (word_opened solidA)
  | one head part ih =>
    intro b r s solidA solidB _ _ same
    rw [text_one] at same
    cases b with
    | word other => exact absurd same.symm (word_opened solidB)
    | one head' part' =>
      rw [text_one] at same
      injection same with _ opened
      obtain ⟨rfl, inner⟩ := head_unique solidA.1 solidB.1 opened
      obtain ⟨rfl, closed⟩ := ih solidA.2 solidB.2 (stops_paren r) (stops_paren s) inner
      injection closed with _ rest
      exact ⟨rfl, rest⟩
    | two head' left right =>
      rw [text_two] at same
      injection same with _ opened
      obtain ⟨rfl, inner⟩ := head_unique solidA.1 solidB.1 opened
      obtain ⟨_, behind⟩ := ih solidA.2 solidB.2.1 (stops_paren r) (stops_space _) inner
      injection behind with close
      exact absurd close (by decide)
  | two head left right ihLeft ihRight =>
    intro b r s solidA solidB _ _ same
    rw [text_two] at same
    cases b with
    | word other => exact absurd same.symm (word_opened solidB)
    | one head' part =>
      rw [text_one] at same
      injection same with _ opened
      obtain ⟨rfl, inner⟩ := head_unique solidA.1 solidB.1 opened
      obtain ⟨_, behind⟩ := ihLeft solidA.2.1 solidB.2 (stops_space _) (stops_paren s) inner
      injection behind with close
      exact absurd close (by decide)
    | two head' left' right' =>
      rw [text_two] at same
      injection same with _ opened
      obtain ⟨rfl, inner⟩ := head_unique solidA.1 solidB.1 opened
      obtain ⟨rfl, behind⟩ := ihLeft solidA.2.1 solidB.2.1 (stops_space _) (stops_space _) inner
      injection behind with _ last
      obtain ⟨rfl, closed⟩ := ihRight solidA.2.2 solidB.2.2 (stops_paren r) (stops_paren s) last
      injection closed with _ rest
      exact ⟨rfl, rest⟩

end Prefixed

namespace Expr

def prefixed : Expr → Prefixed
  | .literal value => .word value.text.toList
  | .name token => .word token.lexeme.toList
  | .group inner => .one "group".toList inner.prefixed
  | .unary operator operand => .one operator.lexeme.toList operand.prefixed
  | .binary left operator right => .two operator.lexeme.toList left.prefixed right.prefixed

theorem prefixed_text (e : Expr) : e.prefixed.text = e.text.toList := by
  induction e with
  | literal value => rfl
  | name token => rfl
  | group inner ih => simp [prefixed, Prefixed.text, ih, text, parenthesized]
  | unary operator operand ih => simp [prefixed, Prefixed.text, ih, text, parenthesized]
  | binary left operator right ihLeft ihRight =>
    simp [prefixed, Prefixed.text, ihLeft, ihRight, text, parenthesized]

end Expr

-- The text of a string is not how it is spelled; nor is that of an infinity.
def Value.Plain : Value → Prop
  | .string _ => False
  | .number x => x.isInf = false
  | _ => True

def Token.Marked (token : Token) : Prop := token.Spelled ∧ ∃ mark, token.kind = .mark mark

def Expr.Legible : Expr → Prop
  | .literal value => value.Plain → Spells value.kind value.text.toList
  | .name token => token.Spelled ∧ token.kind = .identifier
  | .group inner => inner.Legible
  | .unary operator operand => operator.Marked ∧ operand.Legible
  | .binary left operator right => operator.Marked ∧ left.Legible ∧ right.Legible

def Expr.Plain (e : Expr) : Prop := ∀ value, .literal value ∈ e.postorder → value.Plain

theorem Decimal.to_float_plain {d : Decimal} (plain : d.toFloat.isInf = false) :
    d.toFloat.isFinite = true ∧ Binary64.isNegative d.toFloat = false := by
  have most : d.encoding ≤ Binary64.infinity := Nat.min_le_right _ _
  rcases Nat.lt_or_eq_of_le most with below | top
  · exact Binary64.of_magnitude_finite below
  · rw [Decimal.toFloat, top, Binary64.of_magnitude_infinity] at plain
    cases plain

theorem pointed_spells {digit : Char} {digits fraction : List Char}
    (all : ∀ c ∈ digit :: digits, c.isDigit = true) (point : ∀ c ∈ fraction, c.isDigit = true) :
    Spells (.number (Decimal.ofDigits (digit :: digits) fraction).toFloat)
      (Decimal.pointed (digit :: digits) fraction) := by
  cases fraction with
  | nil => exact .whole all
  | cons next more => exact .decimal all point

theorem Decimal.text_spells (d : Decimal) : Spells (.number d.toFloat) d.text := by
  obtain ⟨digit, digits, whole⟩ := d.whole_digits_some
  have all := d.whole_digits_all
  rw [whole] at all
  have spells := pointed_spells all d.fraction_digits_all
  rwa [← whole, d.of_digits_text] at spells

theorem spells_decimal {x : Float} {text : List Char} (spells : Spells (.number x) text) :
    ∃ d : Decimal, x = d.toFloat := by
  cases spells with
  | whole all => exact ⟨_, rfl⟩
  | decimal all point => exact ⟨_, rfl⟩

theorem number_spells {x : Float} {text : List Char} (spells : Spells (.number x) text)
    (plain : x.isInf = false) : Spells (.number x) (Value.number x).text.toList := by
  obtain ⟨d, rfl⟩ := spells_decimal spells
  obtain ⟨finite, clear⟩ := d.to_float_plain plain
  generalize d.toFloat = x at finite clear
  have printed : (Value.number x).text.toList = Number.digits x := by
    rw [Value.text, Number.text_finite finite, clear]
    exact String.toList_ofList
  have value : (Decimal.shortest (Binary64.magnitude x)).toFloat = x := by
    rw [Decimal.toFloat, Decimal.shortest_encoding _ (Binary64.magnitude_finite finite),
      Binary64.of_magnitude_abs finite, Binary64.abs_positive finite clear]
  have spells := Decimal.text_spells (Decimal.shortest (Binary64.magnitude x))
  rw [value] at spells
  rw [printed]
  exact spells

theorem literal_spells {value : Value} {token : Token} (kind : token.kind = value.kind)
    (spelled : token.Spelled) (plain : value.Plain) : Spells value.kind value.text.toList := by
  rw [Token.Spelled, kind] at spelled
  cases value with
  | nil => exact .keyword .nil
  | boolean value =>
    cases value with
    | true => exact .keyword .true
    | false => exact .keyword .false
  | number x => exact number_spells spelled plain
  | string text => exact absurd plain id

theorem derives_legible {level : Level} {tokens : List Token} {value : Expr}
    (derived : Derives level tokens value) (spelled : ∀ token ∈ tokens, token.Spelled) :
    value.Legible := by
  induction derived with
  | literal kind => exact fun plain => literal_spells kind (spelled _ (.head _)) plain
  | name kind => exact ⟨spelled _ (.head _), kind⟩
  | group _ _ _ ih => exact ih fun token member => spelled token (by simp [member])
  | @sign operator _ _ signs _ ih =>
    have marked : ∃ mark, operator.kind = .mark mark := signs.elim (⟨_, ·⟩) (⟨_, ·⟩)
    exact ⟨⟨spelled _ (.head _), marked⟩, ih fun token member => spelled token (.tail _ member)⟩
  | operand _ ih => exact ih spelled
  | @chain level operator before after left right _ joins _ ihLeft ihRight =>
    obtain ⟨mark, _, kind⟩ := joins
    exact ⟨⟨spelled operator (by simp), mark, kind⟩,
      ihLeft fun token member => spelled token (by simp [member]),
      ihRight fun token member => spelled token (by simp [member])⟩

theorem part_legible {whole part : Expr} (legible : whole.Legible) (inside : part ∈ whole.postorder) :
    part.Legible := by
  induction whole with
  | literal value =>
    rw [List.mem_singleton.mp inside]
    exact legible
  | name token =>
    rw [List.mem_singleton.mp inside]
    exact legible
  | group inner ih =>
    rcases List.mem_append.mp inside with deeper | same
    · exact ih legible deeper
    · rw [List.mem_singleton.mp same]
      exact legible
  | unary operator operand ih =>
    rcases List.mem_append.mp inside with deeper | same
    · exact ih legible.2 deeper
    · rw [List.mem_singleton.mp same]
      exact legible
  | binary left operator right ihLeft ihRight =>
    rcases List.mem_append.mp inside with before | later
    · exact ihLeft legible.2.1 before
    · rcases List.mem_append.mp later with after | same
      · exact ihRight legible.2.2 after
      · rw [List.mem_singleton.mp same]
        exact legible

theorem declares_legible {tokens : List Token} {stmt : Stmt} {value : Expr}
    (declared : Declares tokens stmt) (spelled : ∀ token ∈ tokens, token.Spelled)
    (held : stmt.expr? = some value) : value.Legible := by
  cases declared with
  | bare _ _ _ => cases held
  | initialized _ _ _ initial _ =>
    cases held
    exact derives_legible initial fun token member => spelled token (by simp [member])
  | print _ inner _ =>
    cases held
    exact derives_legible inner fun token member => spelled token (by simp [member])
  | expression inner _ =>
    cases held
    exact derives_legible inner fun token member => spelled token (by simp [member])

namespace Expr

def IsRead (e : Expr) : Prop :=
  ∃ source stmt whole, stmt ∈ statementsOf source ∧ stmt.expr? = some whole ∧ e ∈ whole.postorder

theorem read_legible {e : Expr} (read : e.IsRead) : e.Legible := by
  obtain ⟨source, stmt, whole, member, held, inside⟩ := read
  have found : (scan source).tokens.find? Token.isEnd = some (.atEnd (sourceLines source)) := by
    rw [scan_tokens, Program.find_end_past (text_tokens_no_end _)]
    rfl
  have body : Program.body (scan source).tokens = textTokens source.toList := by
    rw [scan_tokens, Program.body_append (text_tokens_no_end _) rfl]
  rw [statementsOf, Program.read_ended found, body] at member
  obtain ⟨result, tried, accepted⟩ := List.mem_filterMap.mp member
  cases result with
  | error failure => cases accepted
  | ok stmt =>
    cases accepted
    obtain ⟨used, declared, placed⟩ := Program.attempts_declared tried
    have spelled (token : Token) (member : token ∈ used) : token.Spelled :=
      text_tokens_spelled _ token (placed token member)
    exact part_legible (declares_legible declared spelled held) inside

end Expr

def TokenKind.Bare : TokenKind → Prop
  | .mark _ | .string _ => False
  | _ => True

theorem parts_bare {c : Char} (inside : c.isAlphanum = true ∨ c = '_' ∨ c = '.') :
    Prefixed.parts c = false := by
  cases part : Prefixed.parts c with
  | false => rfl
  | true =>
    have cases : (c = ' ' ∨ c = '(') ∨ c = ')' := by simpa [Prefixed.parts] using part
    rcases cases with (rfl | rfl) | rfl <;> exact absurd inside (by decide)

theorem parts_digit {c : Char} (digit : c.isDigit = true) : Prefixed.parts c = false :=
  parts_bare (.inl (by rw [Char.isAlphanum, digit, Bool.or_true]))

theorem word_solid {text : List Char} (lexeme : Lexeme .word text) : Prefixed.Solid text := by
  cases lexeme with
  | @word first rest starts all =>
    refine ⟨List.cons_ne_nil first rest, List.forall_mem_cons.mpr ⟨?_, ?_⟩⟩
    · rcases starts with letter | underscore
      · exact parts_bare (.inl (by rw [Char.isAlphanum, letter, Bool.true_or]))
      · exact parts_bare (.inr (.inl underscore))
    · intro c member
      exact parts_bare ((all c member).imp_right .inl)

theorem spells_solid {kind : TokenKind} {text : List Char} (spells : Spells kind text)
    (bare : kind.Bare) : Prefixed.Solid text := by
  cases spells with
  | mark mark => exact absurd bare id
  | string inside => exact absurd bare id
  | whole all => exact ⟨List.cons_ne_nil _ _, fun c member => parts_digit (all c member)⟩
  | @decimal first next digits more all point =>
    refine ⟨List.cons_ne_nil _ _, ?_⟩
    intro c member
    have place : c ∈ first :: digits ∨ c = '.' ∨ c ∈ next :: more := by
      simpa [or_assoc] using member
    rcases place with whole | rfl | fraction
    · exact parts_digit (all c whole)
    · rfl
    · exact parts_digit (point c fraction)
  | keyword keyword => exact word_solid keyword.spelling_lexeme
  | identifier lexeme _ => exact word_solid lexeme

theorem marked_solid {operator : Token} (marked : operator.Marked) :
    ' ' ∉ operator.lexeme.toList := by
  obtain ⟨spelled, mark, kind⟩ := marked
  rw [Token.Spelled, kind] at spelled
  generalize operator.lexeme.toList = text at spelled
  cases spelled with
  | mark mark => cases mark <;> decide

theorem same_text {s t : Token} (spelledS : s.Spelled) (spelledT : t.Spelled)
    (lexemes : s.lexeme.toList = t.lexeme.toList) : s.SameText t := by
  rw [Token.Spelled, lexemes] at spelledS
  exact ⟨spells_unique spelledS spelledT, String.toList_injective lexemes⟩

namespace Value

theorem plain_bare {value : Value} (plain : value.Plain) : value.kind.Bare := by
  cases value with
  | boolean value => cases value <;> trivial
  | string text => exact absurd plain id
  | _ => trivial

theorem kind_unnamed (value : Value) : value.kind ≠ .identifier := by
  cases value with
  | boolean value => cases value <;> exact TokenKind.noConfusion
  | _ => exact TokenKind.noConfusion

theorem kind_injective {a b : Value} (same : a.kind = b.kind) : a = b := by
  cases a with
  | boolean x =>
    cases b with
    | boolean y => cases x <;> cases y <;> first | rfl | cases same
    | _ => cases x <;> cases same
  | _ =>
    cases b with
    | boolean y => cases y <;> cases same
    | _ => cases same <;> rfl

end Value

namespace Expr

section

variable {operator : Token} {e f : Expr}

theorem plain_group (plain : (group e).Plain) : e.Plain :=
  fun value member => plain value (List.mem_append_left _ member)

theorem plain_unary (plain : (unary operator e).Plain) : e.Plain :=
  fun value member => plain value (List.mem_append_left _ member)

theorem plain_binary (plain : (binary e operator f).Plain) : e.Plain ∧ f.Plain :=
  ⟨fun value member => plain value (List.mem_append_left _ member),
    fun value member => plain value (List.mem_append_right _ (List.mem_append_left _ member))⟩

end

theorem prefixed_solids {e : Expr} (legible : e.Legible) (plain : e.Plain) : e.prefixed.Solids := by
  induction e with
  | literal value =>
    have here := plain value (.head _)
    exact spells_solid (legible here) (Value.plain_bare here)
  | name token =>
    obtain ⟨spelled, kind⟩ := legible
    rw [Token.Spelled, kind] at spelled
    exact spells_solid spelled trivial
  | group inner ih => exact ⟨by decide, ih legible (plain_group plain)⟩
  | unary operator operand ih =>
    obtain ⟨marked, legible⟩ := legible
    exact ⟨marked_solid marked, ih legible (plain_unary plain)⟩
  | binary left operator right ihLeft ihRight =>
    obtain ⟨marked, before, after⟩ := legible
    obtain ⟨plainLeft, plainRight⟩ := plain_binary plain
    exact ⟨marked_solid marked, ihLeft before plainLeft, ihRight after plainRight⟩

theorem group_not_marked {operator : Token} (marked : operator.Marked) :
    "group".toList ≠ operator.lexeme.toList := by
  intro same
  have letters : ['r', 'o', 'u', 'p'].all Char.isAlphanum = true := by decide
  have word : Lexeme .word "group".toList :=
    .word (.inl (by decide)) fun c member => .inl (List.all_eq_true.mp letters c member)
  have named : Spells .identifier "group".toList :=
    .identifier word (by intro keyword; cases keyword <;> decide)
  obtain ⟨spelled, mark, kind⟩ := marked
  rw [Token.Spelled, ← same, kind] at spelled
  cases spells_unique spelled named

theorem literal_not_name {value : Value} {token : Token} (legible : (literal value).Legible)
    (plain : value.Plain) (named : (name token).Legible) : value.text.toList ≠ token.lexeme.toList := by
  intro same
  obtain ⟨spelled, kind⟩ := named
  rw [Token.Spelled, ← same, kind] at spelled
  exact value.kind_unnamed (spells_unique (legible plain) spelled)

theorem prefixed_injective {e : Expr} : ∀ {f : Expr}, e.Legible → f.Legible → e.Plain → f.Plain →
    e.prefixed = f.prefixed → e.Alike (.ofTokens Token.SameText) f := by
  induction e with
  | literal value =>
    intro f legible legibleF plain plainF same
    have here := plain value (.head _)
    cases f with
    | literal other =>
      injection same with same
      have spells := legible here
      rw [same] at spells
      have there := plainF other (.head _)
      exact .literal (Value.kind_injective (spells_unique spells (legibleF there)))
    | name token =>
      injection same with same
      exact absurd same (literal_not_name legible here legibleF)
    | _ => cases same
  | name token =>
    intro f legible legibleF _ plainF same
    cases f with
    | literal value =>
      injection same with same
      exact absurd same.symm (literal_not_name legibleF (plainF value (.head _)) legible)
    | name other =>
      injection same with same
      exact .name (same_text legible.1 legibleF.1 same)
    | _ => cases same
  | group inner ih =>
    intro f legible legibleF plain plainF same
    cases f with
    | group inner' =>
      injection same with _ inside
      exact .group (ih legible legibleF (plain_group plain) (plain_group plainF) inside)
    | unary operator operand =>
      injection same with heads
      exact absurd heads (group_not_marked legibleF.1)
    | _ => cases same
  | unary operator operand ih =>
    intro f legible legibleF plain plainF same
    cases f with
    | group inner =>
      injection same with heads
      exact absurd heads.symm (group_not_marked legible.1)
    | unary operator' operand' =>
      injection same with heads inside
      exact .unary (same_text legible.1.1 legibleF.1.1 heads)
        (ih legible.2 legibleF.2 (plain_unary plain) (plain_unary plainF) inside)
    | _ => cases same
  | binary left operator right ihLeft ihRight =>
    intro f legible legibleF plain plainF same
    cases f with
    | binary left' operator' right' =>
      obtain ⟨plainLeft, plainRight⟩ := plain_binary plain
      obtain ⟨plainLeft', plainRight'⟩ := plain_binary plainF
      injection same with heads before after
      exact .binary
        (ihLeft legible.2.1 legibleF.2.1 plainLeft plainLeft' before)
        (same_text legible.1.1 legibleF.1.1 heads)
        (ihRight legible.2.2 legibleF.2.2 plainRight plainRight' after)
    | _ => cases same

theorem text_determines {e f : Expr} (readE : e.IsRead) (readF : f.IsRead) (plainE : e.Plain)
    (plainF : f.Plain) (same : e.text = f.text) : e.Alike (.ofTokens Token.SameText) f := by
  have legibleE := read_legible readE
  have legibleF := read_legible readF
  have texts : e.prefixed.text ++ [] = f.prefixed.text ++ [] := by
    rw [prefixed_text, prefixed_text, same]
  have ended : Prefixed.Stops [] := by simp [Prefixed.Stops]
  obtain ⟨shapes, _⟩ := Prefixed.text_unique (prefixed_solids legibleE plainE)
    (prefixed_solids legibleF plainF) ended ended texts
  exact prefixed_injective legibleE legibleF plainE plainF shapes

def difference (line : Nat) (fraction : List Char) : Expr :=
  .binary (.unary ⟨.mark .minus, "-", 1⟩ (.name ⟨.identifier, "group", 1⟩)) ⟨.mark .minus, "-", line⟩
    (.group (.binary (.name ⟨.identifier, "a", line⟩) ⟨.mark .equalEqual, "==", line⟩
      (.literal (.number (Decimal.ofDigits ['1'] fraction).toFloat))))

theorem text_determines_difference :
    (difference 1 ['5']).IsRead ∧ (difference 2 ['5', '0']).IsRead ∧
    (difference 1 ['5']).Plain ∧ (difference 2 ['5', '0']).Plain ∧
    (difference 1 ['5']).text = (difference 2 ['5', '0']).text ∧
    (difference 1 ['5']).Alike (.ofTokens Token.SameText) (difference 2 ['5', '0']) := by
  have whole (line : Nat) (fraction : List Char) :
      difference line fraction ∈ (difference line fraction).postorder := by
    simp [difference, postorder]
  have readE : (difference 1 ['5']).IsRead := by
    have statements : statementsOf "-group - (a == 1.5);" = [.expression (difference 1 ['5'])] := by
      with_unfolding_all rfl
    exact ⟨_, _, _, statements ▸ List.mem_singleton_self _, rfl, whole 1 ['5']⟩
  have readF : (difference 2 ['5', '0']).IsRead := by
    have statements :
        statementsOf "-group\n- (a == 1.50);" = [.expression (difference 2 ['5', '0'])] := by
      with_unfolding_all rfl
    exact ⟨_, _, _, statements ▸ List.mem_singleton_self _, rfl, whole 2 ['5', '0']⟩
  have encoding : (Decimal.ofDigits ['1'] ['5', '0']).encoding =
      (Decimal.ofDigits ['1'] ['5']).encoding := by decide +kernel
  have value : (Decimal.ofDigits ['1'] ['5', '0']).toFloat = (Decimal.ofDigits ['1'] ['5']).toFloat :=
    congrArg Binary64.ofMagnitude encoding
  have shorter : difference 2 ['5', '0'] = difference 2 ['5'] := by
    rw [difference, difference, value]
  have finite : (Decimal.ofDigits ['1'] ['5']).toFloat.isInf = false := by decide +kernel
  have plain (line : Nat) : (difference line ['5']).Plain := by
    intro value member
    have number : value = .number (Decimal.ofDigits ['1'] ['5']).toFloat := by
      simpa [difference, postorder] using member
    rw [number]
    exact finite
  have plainF : (difference 2 ['5', '0']).Plain := by
    rw [shorter]
    exact plain 2
  have same : (difference 1 ['5']).text = (difference 2 ['5', '0']).text := by
    rw [shorter]
    rfl
  exact ⟨readE, readF, plain 1, plainF, same, text_determines readE readF (plain 1) plainF same⟩

end Expr

end Lox
