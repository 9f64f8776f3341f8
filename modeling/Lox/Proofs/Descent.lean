import Lox.Proofs.Yield

/- Programs read with a cursor that stands at an index of the tokens, level by level. Every look at
   a token may fail: there is no result if an index is out of range, and none if calls nest deeper
   than they may. For tokens with an end the descent has a result, and it is that of reading. -/
set_option autoImplicit false

namespace Lox

abbrev Cursor := StateT Nat Option

structure Refusal where
  expected : Expectation
  token : Token

-- After a refusal the cursor stands where it was.
abbrev Descent := ExceptT Refusal Cursor

namespace Cursor

def exhausted {α : Type} : Cursor α := fun _ => none

section

variable (tokens : List Token)

def look : Cursor Token := fun index =>
  (tokens[min index (tokens.length - 1)]?).map fun token => (token, index)

def behind : Cursor Token := fun index => (tokens[index - 1]?).map fun token => (token, index)

def advance : Cursor Token := do
  unless (← look tokens).isEnd do modify (· + 1)
  behind tokens

def refuse {α : Type} (expected : Expectation) : Descent α := do
  throw ⟨expected, ← look tokens⟩

def expect (fits : Token → Bool) (expected : Expectation) : Descent Token := do
  if fits (← look tokens) then advance tokens else refuse tokens expected

-- A chain of a level descends to the tighter level at once, with no token taken.
mutual
def chain (depth : Nat) (level : Level) : Descent Expr :=
  match depth with
  | 0 => exhausted
  | depth + 1 =>
    if level = .unary then operand depth
    else do join depth level (← chain depth level.tighter)

def join (depth : Nat) (level : Level) (value : Expr) : Descent Expr :=
  match depth with
  | 0 => exhausted
  | depth + 1 => do
    if (← look tokens).level? = some level then
      let operator ← advance tokens
      join depth level (.binary value operator (← chain depth level.tighter))
    else return value

def operand (depth : Nat) : Descent Expr :=
  match depth with
  | 0 => exhausted
  | depth + 1 => do
    match (← look tokens).opening? with
    | some .sign =>
      let operator ← advance tokens
      return .unary operator (← operand depth)
    | some .paren =>
      let _ ← advance tokens
      let inner ← chain depth .equality
      let _ ← expect tokens (·.isMark .rightParen) .closingParen
      return .group inner
    | some (.atom value) =>
      let _ ← advance tokens
      return value
    | none => refuse tokens .expression
end

def close (expected : Expectation) (stmt : Stmt) : Descent Stmt := do
  let _ ← expect tokens (·.isMark .semicolon) expected
  return stmt

def initial (depth : Nat) : Descent (Option Expr) := do
  if (← look tokens).isMark .equal then
    let _ ← advance tokens
    return some (← chain tokens depth .equality)
  else return none

def declaration (depth : Nat) : Descent Stmt := do
  if (← look tokens).isKeyword .var then
    let _ ← advance tokens
    let name ← expect tokens Token.isName .variableName
    close tokens .declarationEnd (.var name (← initial tokens depth))
  else if (← look tokens).isKeyword .print then
    let _ ← advance tokens
    close tokens .valueEnd (.print (← chain tokens depth .equality))
  else close tokens .expressionEnd (.expression (← chain tokens depth .equality))

def skip (depth : Nat) : Cursor Unit :=
  match depth with
  | 0 => exhausted
  | depth + 1 => do
    if (← look tokens).isEnd then return ()
    else if (← behind tokens).isMark .semicolon then return ()
    else if (← look tokens).startsStatement then return ()
    else
      let _ ← advance tokens
      skip depth

def resume (depth : Nat) : Cursor Unit := do
  let _ ← advance tokens
  skip tokens depth

def attempts (depth : Nat) : Cursor (List (Except Refusal Stmt)) :=
  match depth with
  | 0 => exhausted
  | depth + 1 => do
    if (← look tokens).isEnd then return []
    else
      match ← (declaration tokens depth).run with
      | .ok stmt => return .ok stmt :: (← attempts depth)
      | .error refusal =>
        resume tokens depth
        return .error refusal :: (← attempts depth)

def refused : Except Refusal Stmt → Option Diagnostic
  | .ok _ => none
  | .error refusal => some (.parseAt refusal.token refusal.expected.message)

def program (depth : Nat) : Option Program :=
  if tokens.isEmpty then some ⟨[], []⟩
  else do
    let (tried, _) ← (attempts tokens depth).run 0
    return ⟨tried.filterMap Except.toOption, tried.filterMap refused⟩

end

end Cursor

theorem Level.rank_loose {level : Level} (loose : level ≠ .unary) :
    level.tighter.rank = level.rank + 1 ∧ level.rank ≤ 3 := by
  cases level with
  | unary => exact absurd rfl loose
  | _ => exact ⟨rfl, by decide⟩

namespace Expr

theorem read_operand_from {floor level : Level} {stack : List Frame}
    (admits : Frame.Admits floor level stack) (tokens : List Token) :
    readOperand floor stack tokens = (readFrom level tokens).andThen (readAfter floor stack) := by
  have alone : Frame.Admits level level [] := Nat.le_refl _
  have trial := trial level tokens
  cases trial with
  | @chain used rest value derived ends =>
    rw [read_operand_derived derived admits (Level.ends_mono (Level.tighter_rank _) ends),
      read_from_derived derived ends]
    rfl
  | @misfit used rest expected begins fails =>
    rw [readFrom, fails floor stack rest rfl admits, fails level [] rest rfl alone]
    rfl

theorem read_from_ends {level : Level} {tokens rest : List Token} {value : Expr}
    (accepted : readFrom level tokens = .ok (value, rest)) : level.Ends rest := by
  obtain ⟨_, _, _, ends⟩ := read_from_ok_iff.mp accepted
  exact ends

end Expr

namespace Token

variable {token : Token}

theorem level_end (ended : token.isEnd = true) : token.level? = none := by
  simp [level?, is_end_iff.mp ended]

theorem opening_end (ended : token.isEnd = true) : token.opening? = none := by
  simp [opening?, is_end_iff.mp ended]

theorem is_mark_end (ended : token.isEnd = true) (mark : Mark) : token.isMark mark = false := by
  simp [isMark, is_end_iff.mp ended]

theorem is_keyword_end (ended : token.isEnd = true) (word : Keyword) : token.isKeyword word = false := by
  simp [isKeyword, is_end_iff.mp ended]

theorem is_name_end (ended : token.isEnd = true) : token.isName = false := by
  simp [isName, is_end_iff.mp ended]

end Token

namespace Cursor

theorem run_bind {α β : Type} (x : Descent α) (f : α → Descent β) (index : Nat) :
    (x >>= f).run.run index =
      match x.run.run index with
      | none => none
      | some (.ok value, later) => (f value).run.run later
      | some (.error refusal, later) => some (.error refusal, later) := by
  rw [ExceptT.run_bind, StateT.run_bind]
  cases x.run.run index with
  | none => rfl
  | some pair =>
    obtain ⟨result, later⟩ := pair
    cases result <;> rfl

theorem run_lift {α : Type} (x : Cursor α) (index : Nat) :
    (x : Descent α).run.run index = (x.run index).map fun pair => (.ok pair.1, pair.2) := by
  change (ExceptT.run (ExceptT.lift x)).run index = _
  rw [ExceptT.run_lift, StateT.run_map]
  rfl

theorem run_then {α β : Type} {x : Cursor α} {index later : Nat} {value : α}
    (ran : x.run index = some (value, later)) (next : α → Cursor β) :
    (x >>= next).run index = (next value).run later := by
  rw [StateT.run_bind, ran, Option.bind_eq_bind, Option.bind_some]

def place (body rest : List Token) : Nat := body.length - rest.length

variable {body rest : List Token}

theorem place_append (front rest : List Token) : place (front ++ rest) rest = front.length := by
  simp [place]

variable (last : Token) (after : List Token)

theorem look_place (inside : rest <:+ body) :
    (look (body ++ last :: after)).run (place body rest) = some (rest.headD last, place body rest) := by
  obtain ⟨front, rfl⟩ := inside
  have here : min front.length ((front ++ rest ++ last :: after).length - 1) = front.length := by
    simp
    omega
  have found : (front ++ rest ++ last :: after)[front.length]? = some (rest.headD last) := by
    rw [List.append_assoc, List.getElem?_append_right (Nat.le_refl _), Nat.sub_self]
    cases rest <;> rfl
  change Option.map _ _ = _
  rw [place_append, here, found]
  rfl

theorem place_cons {token : Token} (inside : token :: rest <:+ body) :
    place body rest = place body (token :: rest) + 1 := by
  have short := inside.length_le
  simp only [place, List.length_cons] at short ⊢
  omega

theorem behind_place {token : Token} (inside : token :: rest <:+ body) :
    (behind (body ++ last :: after)).run (place body rest) = some (token, place body rest) := by
  have next := place_cons inside
  obtain ⟨front, rfl⟩ := inside
  have found : (front ++ token :: rest ++ last :: after)[front.length]? = some token := by
    rw [List.append_assoc, List.getElem?_append_right (Nat.le_refl _), Nat.sub_self]
    rfl
  change Option.map _ _ = _
  rw [next, place_append, Nat.add_sub_cancel, found]
  rfl

theorem advance_place {token : Token} (inside : token :: rest <:+ body) (inner : token.isEnd = false) :
    (advance (body ++ last :: after)).run (place body (token :: rest)) =
      some (token, place body rest) := by
  have next := behind_place last after inside
  rw [place_cons inside] at next ⊢
  rw [advance, run_then (look_place last after inside), List.headD_cons, if_neg (by simp [inner])]
  exact next

theorem advance_ended (ended : last.isEnd = true) :
    ∃ token, (advance (body ++ last :: after)).run (place body []) = some (token, place body []) := by
  have within : place body [] - 1 < (body ++ last :: after).length := by
    simp [place]
    omega
  refine ⟨(body ++ last :: after)[place body [] - 1], ?_⟩
  rw [advance, run_then (look_place last after List.nil_suffix), List.headD_nil, if_pos ended]
  change Option.map _ _ = _
  rw [List.getElem?_eq_getElem within]
  rfl

def refusal (last : Token) (failure : Failure) : Refusal :=
  ⟨failure.expected, failure.rest.headD last⟩

def outcome {α : Type} (body : List Token) (last : Token) : Reading α → Except Refusal α × Nat
  | .ok (value, rest) => (.ok value, place body rest)
  | .error failure => (.error (refusal last failure), place body failure.rest)

structure Follows {α : Type} (body : List Token) (last : Token) (rest : List Token)
    (descent : Descent α) (reading : Reading α) : Prop where
  inside : reading.rest <:+ body
  run : descent.run.run (place body rest) = some (outcome body last reading)

namespace Follows

variable {α β : Type} {last}

theorem bind {first : Descent α} {next : α → Descent β} {reading : Reading α}
    {later : α → List Token → Reading β} (here : Follows body last rest first reading)
    (there : ∀ value tail, reading = .ok (value, tail) → tail <:+ body →
      Follows body last tail (next value) (later value tail)) :
    Follows body last rest (first >>= next) (reading.andThen later) := by
  obtain ⟨inside, run⟩ := here
  cases reading with
  | ok pair =>
    obtain ⟨inner, runs⟩ := there pair.1 pair.2 rfl inside
    exact ⟨inner, by rw [run_bind, run]; exact runs⟩
  | error failure => exact ⟨inside, by rw [run_bind, run]; rfl⟩

theorem done (inside : rest <:+ body) (value : α) :
    Follows body last rest (pure value) (.ok (value, rest)) := ⟨inside, rfl⟩

theorem look {next : Token → Descent α} {reading : Reading α} (inside : rest <:+ body)
    (there : Follows body last rest (next (rest.headD last)) reading) :
    Follows body last rest (liftM (look (body ++ last :: after)) >>= next) reading := by
  refine ⟨there.inside, ?_⟩
  rw [run_bind, run_lift, look_place last after inside]
  exact there.run

theorem advance {token : Token} {next : Token → Descent α} {reading : Reading α}
    (inside : token :: rest <:+ body) (inner : token.isEnd = false)
    (there : Follows body last rest (next token) reading) :
    Follows body last (token :: rest) (liftM (advance (body ++ last :: after)) >>= next) reading := by
  refine ⟨there.inside, ?_⟩
  rw [run_bind, run_lift, advance_place last after inside inner]
  exact there.run

theorem refuse (inside : rest <:+ body) (expected : Expectation) :
    Follows body last rest (refuse (body ++ last :: after) expected : Descent α)
      (.error ⟨expected, rest⟩) :=
  look after inside ⟨inside, rfl⟩

end Follows

def demand (fits : Token → Bool) (expected : Expectation) : List Token → Reading Token
  | [] => .error ⟨expected, []⟩
  | token :: rest => if fits token then .ok (token, rest) else .error ⟨expected, token :: rest⟩

theorem demand_shorter {fits : Token → Bool} {expected : Expectation} {tokens later : List Token}
    {token : Token} (met : demand fits expected tokens = .ok (token, later)) :
    later.length < tokens.length := by
  cases tokens with
  | nil => cases met
  | cons first rest =>
    rw [demand] at met
    split at met
    · cases met
      exact Nat.lt_succ_self _
    · cases met

theorem read_after_demand {value : Expr} {rest : List Token} (ends : Level.equality.Ends rest) :
    Expr.readAfter .unary [.group] value rest =
      (demand (·.isMark .rightParen) .closingParen rest).andThen fun _ =>
        Expr.readAfter .unary [] (.group value) := by
  cases rest with
  | nil => exact Expr.read_after_unclosed .unary [] value ends (by simp)
  | cons closing more =>
    rw [demand]
    by_cases marked : closing.isMark .rightParen = true
    · rw [if_pos marked]
      exact Expr.read_after_close .unary [] value (Token.is_mark_iff.mp marked) more
    · rw [if_neg marked]
      refine Expr.read_after_unclosed .unary [] value ends ?_
      intro token first kind
      cases first
      exact marked (Token.is_mark_iff.mpr kind)

section

variable {last} (inner : ∀ token ∈ body, token.isEnd = false) (ended : last.isEnd = true)

include inner

theorem expect_follows {fits : Token → Bool} (other : fits last = false) (expected : Expectation)
    (inside : rest <:+ body) :
    Follows body last rest (expect (body ++ last :: after) fits expected)
      (demand fits expected rest) := by
  refine Follows.look after inside ?_
  cases rest with
  | nil =>
    rw [List.headD_nil, if_neg (by simp [other])]
    exact Follows.refuse after inside expected
  | cons token tail =>
    rw [List.headD_cons, demand]
    split
    · have past : Follows body last tail (pure token) (.ok (token, tail)) :=
        Follows.done ((List.suffix_cons token tail).trans inside) token
      have run := Follows.advance after inside (inner token (inside.mem List.mem_cons_self)) past
      rwa [bind_pure] at run
    · exact Follows.refuse after inside expected

include ended

-- With each token ahead calls nest six levels deeper at most.
structure Calls (body : List Token) (last : Token) (after : List Token) (depth : Nat) : Prop where
  chain : ∀ level {rest : List Token}, rest <:+ body → 6 * rest.length + 6 - level.rank ≤ depth →
    Follows body last rest (chain (body ++ last :: after) depth level) (Expr.readFrom level rest)
  join : ∀ level value {rest : List Token}, rest <:+ body → 6 * rest.length + 1 ≤ depth →
    level.tighter.Ends rest →
    Follows body last rest (join (body ++ last :: after) depth level value)
      (Expr.readAfter level [] value rest)
  operand : ∀ {rest : List Token}, rest <:+ body → 6 * rest.length + 1 ≤ depth →
    Follows body last rest (operand (body ++ last :: after) depth) (Expr.readFrom .unary rest)

variable {after} {depth : Nat} (calls : Calls body last after depth)

omit inner ended in
include calls in
theorem chain_calls {level : Level} {rest : List Token} (inside : rest <:+ body)
    (deep : 6 * rest.length + 6 - level.rank ≤ depth + 1) :
    Follows body last rest (chain (body ++ last :: after) (depth + 1) level)
      (Expr.readFrom level rest) := by
  rw [chain]
  by_cases tightest : level = .unary
  · rw [if_pos tightest, tightest]
    rw [tightest, Level.rank] at deep
    exact calls.operand inside (by omega)
  · obtain ⟨tighter, most⟩ := Level.rank_loose tightest
    have tight : Frame.Admits level level.tighter [] := level.tighter_rank
    rw [if_neg tightest, Expr.readFrom, Expr.read_operand_from tight]
    refine (calls.chain level.tighter inside (by omega)).bind ?_
    intro value later accepted within
    have shorter := Expr.read_from_progress accepted
    exact calls.join level value within (by omega) (Expr.read_from_ends accepted)

include calls in
theorem join_calls {level : Level} {value : Expr} {rest : List Token} (inside : rest <:+ body)
    (deep : 6 * rest.length ≤ depth) (stops : level.tighter.Ends rest) :
    Follows body last rest (join (body ++ last :: after) (depth + 1) level value)
      (Expr.readAfter level [] value rest) := by
  have stop (other : ∀ token, rest.head? = some token → ¬ token.Joins level) :
      Follows body last rest (pure value) (Expr.readAfter level [] value rest) := by
    rw [Expr.read_after_done (Level.ends_loosen stops other)]
    exact Follows.done inside value
  rw [join]
  refine Follows.look after inside ?_
  cases rest with
  | nil =>
    rw [List.headD_nil, Token.level_end ended, if_neg (by simp)]
    exact stop (by simp)
  | cons operator tail =>
    rw [List.headD_cons]
    by_cases found : operator.level? = some level
    · have joins := Token.level_iff.mp found
      have alone : Frame.Admits level level [] := Nat.le_refl _
      have rank := operator.joins_rank joins
      have deeper : Frame.Admits level level.tighter [.left value operator level] := by
        change level.rank < level.tighter.rank
        omega
      rw [if_pos found, Expr.read_after_join joins alone, Expr.read_operand_from deeper]
      rw [List.length_cons] at deep
      refine Follows.advance after inside (inner operator (inside.mem List.mem_cons_self)) ?_
      refine (calls.chain level.tighter ((List.suffix_cons operator tail).trans inside) (by omega)).bind ?_
      intro right later accepted within
      have ends := Expr.read_from_ends accepted
      have shorter := Expr.read_from_progress accepted
      rw [Expr.read_after_left ends level [] value joins right]
      exact calls.join level _ within (by omega) ends
    · rw [if_neg found]
      refine stop ?_
      intro token first joins
      cases first
      exact found (Token.level_iff.mpr joins)

include calls in
theorem operand_calls {rest : List Token} (inside : rest <:+ body) (deep : 6 * rest.length ≤ depth) :
    Follows body last rest (operand (body ++ last :: after) (depth + 1)) (Expr.readFrom .unary rest) := by
  rw [operand]
  refine Follows.look after inside ?_
  cases rest with
  | nil =>
    rw [List.headD_nil, Token.opening_end ended, Expr.readFrom, Expr.readOperand]
    exact Follows.refuse after inside .expression
  | cons token tail =>
    have within : tail <:+ body := (List.suffix_cons token tail).trans inside
    have stays : token.isEnd = false := inner token (inside.mem List.mem_cons_self)
    have finished (value : Expr) {later : List Token} (within : later <:+ body) :
        Follows body last later (pure value) (Expr.readAfter .unary [] value later) := by
      rw [Expr.read_after_done (Level.ends_unary later)]
      exact Follows.done within value
    rw [List.length_cons] at deep
    rw [List.headD_cons, Expr.readFrom, Expr.readOperand]
    cases token.opening? with
    | none => exact Follows.refuse after inside .expression
    | some opening =>
      cases opening with
      | sign =>
        have admits : Frame.Admits .unary .unary [.sign token] := rfl
        simp only [Expr.read_operand_from admits]
        refine Follows.advance after inside stays ((calls.operand within (by omega)).bind ?_)
        intro value later _ within
        rw [Expr.read_after_sign]
        exact finished _ within
      | paren =>
        have admits : Frame.Admits .unary .equality [.group] := trivial
        simp only [Expr.read_operand_from admits]
        refine Follows.advance after inside stays ((calls.chain .equality within (by omega)).bind ?_)
        intro value later accepted within
        rw [read_after_demand (Expr.read_from_ends accepted)]
        refine (expect_follows after inner (Token.is_mark_end ended _) _ within).bind ?_
        intro _ more _ within
        exact finished _ within
      | atom value => exact Follows.advance after inside stays (finished value within)

theorem calls_follow (after : List Token) (depth : Nat) : Calls body last after depth := by
  induction depth with
  | zero =>
    have most (level : Level) : level.rank ≤ 4 := by cases level <;> decide
    refine ⟨fun level rest _ deep => ?_, fun _ _ _ _ deep => ?_, fun _ deep => ?_⟩
    · have rank := most level
      omega
    · omega
    · omega
  | succ depth ih =>
    exact ⟨fun level _ inside deep => chain_calls ih inside deep,
      fun _ _ _ inside deep stops => join_calls inner ended ih inside (by omega) stops,
      fun inside deep => operand_calls inner ended ih inside (by omega)⟩

end

end Cursor
end Lox
