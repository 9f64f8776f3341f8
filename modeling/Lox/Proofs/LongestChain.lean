import Lox.Source
import Lox.Proofs.CorrectPrefix
import Lox.Proofs.Descent

set_option autoImplicit false

namespace Lox

theorem derives_unique {level : Level} {tokens : List Token} {one other : Expr}
    (first : Derives level tokens one) (second : Derives level tokens other) : one = other := by
  have here := Expr.read_from_derived first level.ends_nil
  have there := Expr.read_from_derived second level.ends_nil
  rw [here] at there
  cases there
  rfl

-- Anything longer would be a chain too, and would not have been read in part.
theorem derives_longest {level : Level} {used rest front : List Token} {value other : Expr}
    (derived : Derives level used value) (ends : level.Ends rest) (inside : front <+: used ++ rest)
    (also : Derives level front other) : front <+: used := by
  rcases List.prefix_or_prefix_of_prefix inside (List.prefix_append used rest) with short | long
  · exact short
  · obtain ⟨more, rfl⟩ := long
    have next : more <+: rest := (List.prefix_append_right_inj used).mp inside
    have part := Expr.read_from_derived derived (Level.ends_front next ends)
    have whole := Expr.read_from_derived also level.ends_nil
    rw [List.append_nil, part] at whole
    cases whole
    simp

theorem ends_before_end {level : Level} {rest : List Token} {last : Token} (ended : last.isEnd = true)
    (after : List Token) : level.Ends (rest ++ last :: after) ↔ level.Ends rest := by
  refine ⟨Level.ends_front (List.prefix_append rest _), ?_⟩
  intro ends
  cases rest with
  | nil => exact Level.ends_other level after (Token.level_end ended)
  | cons token tail => exact Level.ends_head rfl ends

theorem mem_extract {tokens : List Token} {token : Token} {start stop index : Nat}
    (above : start ≤ index) (below : index < stop) (place : tokens[index]? = some token) :
    token ∈ tokens.extract start stop := by
  apply List.mem_of_getElem? (i := index - start)
  rw [List.extract_eq_take_drop, List.getElem?_take_of_lt (by omega), List.getElem?_drop,
    Nat.add_sub_cancel' above, place]

namespace Program

structure LongestChain (level : Level) (tokens : List Token) (start stop : Nat) (value : Expr) :
    Prop where
  nonempty : start < stop
  inside : stop ≤ tokens.length
  derived : Derives level (tokens.extract start stop) value
  only : ∀ other, Derives level (tokens.extract start stop) other → other = value
  longest : ∀ farther other, Derives level (tokens.extract start farther) other → farther ≤ stop

section

variable {tokens after : List Token} {last : Token} {start : Nat} {level : Level}
variable (whole : tokens = body tokens ++ last :: after) (ended : last.isEnd = true)
variable (inside : start ≤ (body tokens).length)

include whole ended

theorem ends_drop {stop : Nat} (stays : stop ≤ (body tokens).length) :
    level.Ends (tokens.drop stop) ↔ level.Ends ((body tokens).drop stop) := by
  rw [drop_body whole stays]
  exact ends_before_end ended after

include inside

theorem chain_in_body {stop : Nat} {value : Expr}
    (derived : Derives level (tokens.extract start stop) value) :
    start < stop ∧ stop ≤ (body tokens).length ∧
      (body tokens).drop start = tokens.extract start stop ++ (body tokens).drop stop := by
  have nonempty : start < stop := by
    obtain ⟨token, rest, first, _⟩ := derives_head derived
    by_contra empty
    rw [List.extract_eq_take_drop, Nat.sub_eq_zero_of_le (Nat.le_of_not_lt empty)] at first
    cases first
  have stays : stop ≤ (body tokens).length := by
    by_contra beyond
    have place : tokens[(body tokens).length]? = some last := by
      rw [getElem_body whole (Nat.le_refl _), List.drop_length]
      rfl
    have member := mem_extract inside (Nat.lt_of_not_le beyond) place
    exact derives_no_end derived last member (Token.is_end_iff.mp ended)
  refine ⟨nonempty, stays, ?_⟩
  have front : tokens.extract start stop = ((body tokens).drop start).take (stop - start) := by
    rw [List.extract_eq_take_drop, drop_body whole inside, List.take_append_of_le_length]
    rw [List.length_drop]
    omega
  have back : (body tokens).drop stop = ((body tokens).drop start).drop (stop - start) := by
    rw [List.drop_drop, Nat.add_sub_cancel' (Nat.le_of_lt nonempty)]
  rw [front, back, List.take_append_drop]

theorem longest_of_ends {used rest : List Token} {value : Expr}
    (split : (body tokens).drop start = used ++ rest) (derived : Derives level used value)
    (ends : level.Ends rest) : LongestChain level tokens start (start + used.length) value := by
  have front := extract_used whole inside split
  have here : Derives level (tokens.extract start (start + used.length)) value := by rwa [front]
  obtain ⟨nonempty, stays, _⟩ := chain_in_body whole ended inside here
  have most : (body tokens).length ≤ tokens.length := (List.takeWhile_prefix _).length_le
  refine ⟨nonempty, Nat.le_trans stays most, here, fun other also => derives_unique also here, ?_⟩
  intro farther other also
  obtain ⟨_, within, ahead⟩ := chain_in_body whole ended inside also
  have reach : tokens.extract start farther <+: used ++ rest := ⟨_, ahead.symm.trans split⟩
  have short := (derives_longest derived ends reach also).length_le
  have size := congrArg List.length ahead
  rw [List.length_append, List.length_drop, List.length_drop] at size
  omega

theorem read_longest_iff {value : Expr} {rest : List Token} :
    Expr.readFrom level ((body tokens).drop start) = .ok (value, rest) ↔
      ∃ stop, rest = (body tokens).drop stop ∧ LongestChain level tokens start stop value ∧
        level.Ends (tokens.drop stop) := by
  rw [Expr.read_from_ok_iff]
  apply Iff.intro
  · intro accepted
    obtain ⟨used, split, derived, ends⟩ := accepted
    have longest := longest_of_ends whole ended inside split derived ends
    obtain ⟨stays, rfl⟩ := drop_used inside split
    exact ⟨start + used.length, rfl, longest, (ends_drop whole ended stays).mpr ends⟩
  · intro longest
    obtain ⟨stop, rfl, chain, ends⟩ := longest
    obtain ⟨_, stays, ahead⟩ := chain_in_body whole ended inside chain.derived
    exact ⟨_, ahead, chain.derived, (ends_drop whole ended stays).mp ends⟩

end

end Program

namespace Cursor

theorem place_drop {body : List Token} {stop : Nat} (stays : stop ≤ body.length) :
    place body (body.drop stop) = stop := by
  rw [place, List.length_drop]
  omega

theorem outcome_ok_iff {α : Type} {body : List Token} {last : Token} {reading : Reading α} {value : α}
    {stop : Nat} : outcome body last reading = (.ok value, stop) ↔
      ∃ rest, reading = .ok (value, rest) ∧ place body rest = stop := by
  cases reading with
  | ok pair => simp [outcome, Prod.ext_iff, and_comm]
  | error failure => simp [outcome]

theorem chain_read {tokens after : List Token} {last : Token}
    (whole : tokens = Program.body tokens ++ last :: after) (ended : last.isEnd = true)
    {start : Nat} (inside : start ≤ (Program.body tokens).length) (level : Level) {depth : Nat}
    (deep : 6 * (Program.body tokens).length + 6 ≤ depth) :
    (chain tokens depth level).run.run start =
      some (outcome (Program.body tokens) last
        (Expr.readFrom level ((Program.body tokens).drop start))) := by
  have ahead : ((Program.body tokens).drop start).length ≤ (Program.body tokens).length :=
    (List.drop_suffix start _).length_le
  have calls := calls_follow (Program.body_inner tokens) ended after depth
  have run := (calls.chain level (List.drop_suffix start _) (by omega)).run
  rwa [place_drop inside, ← whole] at run

end Cursor

namespace Program

theorem descent_longest {tokens : List Token} (ended : ∃ token ∈ tokens, token.isEnd = true)
    {start : Nat} (inside : start ≤ (body tokens).length) (level : Level) {depth : Nat}
    (deep : 6 * (body tokens).length + 6 ≤ depth) :
    (∀ last, tokens.find? Token.isEnd = some last →
      (Cursor.chain tokens depth level).run.run start =
        some (Cursor.outcome (body tokens) last (Expr.readFrom level ((body tokens).drop start)))) ∧
    (∀ value stop, (Cursor.chain tokens depth level).run.run start = some (.ok value, stop) ↔
      LongestChain level tokens start stop value ∧ level.Ends (tokens.drop stop)) ∧
    ((∀ stop, start < stop → ∀ value, ¬ Derives level (tokens.extract start stop) value) →
      ∃ refusal stop, (Cursor.chain tokens depth level).run.run start =
        some (.error refusal, stop)) := by
  obtain ⟨last, after, whole, ends, found⟩ := body_ended ended
  have run := Cursor.chain_read whole ends inside level deep
  have accepted_iff (value : Expr) (stop : Nat) :
      (Cursor.chain tokens depth level).run.run start = some (.ok value, stop) ↔
        LongestChain level tokens start stop value ∧ level.Ends (tokens.drop stop) := by
    rw [run, Option.some.injEq, Cursor.outcome_ok_iff]
    simp only [read_longest_iff whole ends inside]
    apply Iff.intro
    · intro accepted
      obtain ⟨_, ⟨reach, rfl, chain, stops⟩, place⟩ := accepted
      obtain ⟨_, stays, _⟩ := chain_in_body whole ends inside chain.derived
      rw [Cursor.place_drop stays] at place
      exact place ▸ ⟨chain, stops⟩
    · intro longest
      obtain ⟨_, stays, _⟩ := chain_in_body whole ends inside longest.1.derived
      exact ⟨_, ⟨stop, rfl, longest⟩, Cursor.place_drop stays⟩
  refine ⟨?_, accepted_iff, ?_⟩
  · intro other same
    cases found.symm.trans same
    exact run
  · intro none
    cases reading : Expr.readFrom level ((body tokens).drop start) with
    | error failure => exact ⟨_, _, by rw [run, reading]; rfl⟩
    | ok pair =>
      obtain ⟨stop, _, chain, _⟩ := (read_longest_iff whole ends inside).mp reading
      exact absurd chain.derived (none stop chain.nonempty pair.1)

def mixed : List Token := (scan "nil == -(nil - nil) * nil > nil;").tokens

def product : Expr :=
  let minus : Token := ⟨.mark .minus, "-", 1⟩
  .binary (.unary minus (.group (.binary (.literal .nil) minus (.literal .nil))))
    ⟨.mark .star, "*", 1⟩ (.literal .nil)

theorem descent_longest_product :
    (∃ token ∈ mixed, token.isEnd = true) ∧ (body mixed).length = 13 ∧
      mixed.find? Token.isEnd = some (.atEnd 1) ∧
      (Cursor.chain mixed 84 .factor).run.run 2 = some (Cursor.outcome (body mixed) (.atEnd 1)
        (Expr.readFrom .factor ((body mixed).drop 2))) ∧
      LongestChain .factor mixed 2 10 product ∧ Level.factor.Ends (mixed.drop 10) ∧
      (∀ stop, 12 < stop → ∀ value, ¬ Derives .term (mixed.extract 12 stop) value) ∧
      ∃ refusal stop, (Cursor.chain mixed 84 .term).run.run 12 = some (.error refusal, stop) := by
  have ended : ∃ token ∈ mixed, token.isEnd = true := by decide +kernel
  have size : (body mixed).length = 13 := by decide +kernel
  have found : mixed.find? Token.isEnd = some (.atEnd 1) := by rfl
  have deep : 6 * (body mixed).length + 6 ≤ 84 := by omega
  have run : (Cursor.chain mixed 84 .factor).run.run 2 = some (.ok product, 10) := by rfl
  have opened : 2 ≤ (body mixed).length := by omega
  have closed : 12 ≤ (body mixed).length := by omega
  have none : ∀ stop, 12 < stop → ∀ value, ¬ Derives .term (mixed.extract 12 stop) value := by
    intro stop beyond value derived
    have semicolon : mixed[12]? = some ⟨.mark .semicolon, ";", 1⟩ := by rfl
    cases derives_expresses derived _ (mem_extract (Nat.le_refl _) beyond semicolon)
  obtain ⟨agrees, accepted_iff, _⟩ := descent_longest ended opened .factor deep
  obtain ⟨_, _, refused⟩ := descent_longest ended closed .term deep
  obtain ⟨chain, ends⟩ := (accepted_iff product 10).mp run
  exact ⟨ended, size, found, agrees _ found, chain, ends, none, refused none⟩

end Program
end Lox
