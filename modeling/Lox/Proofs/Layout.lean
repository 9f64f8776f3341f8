import Lox.Proofs.KindReading

set_option autoImplicit false

namespace Lox

theorem is_empty_alike {α β : Type} {related : α → β → Prop} {xs : List α} {ys : List β}
    (alike : List.Forall₂ related xs ys) : xs.isEmpty = ys.isEmpty := by
  cases alike <;> rfl

section

variable {same : Token → Token → Prop} (kinds : ∀ s t, same s t → s.kind = t.kind)
  (lexemes : ∀ s t, same s t → s.lexeme = t.lexeme)
include lexemes

theorem effect_of_tokens {x y : Effect} (alike : x.Alike (.ofTokens same) y) : x = y := by
  cases alike with
  | nothing => rfl
  | @bind s t x y name value =>
    have value : x = y := value
    rw [lexemes s t name, value]
  | @print x y value =>
    have value : x = y := value
    rw [value]

theorem effects_of_tokens {xs ys : List Effect}
    (alike : List.Forall₂ (Effect.Alike (.ofTokens same)) xs ys) : xs = ys := by
  induction alike with
  | nil => rfl
  | cons first _ ih => rw [effect_of_tokens lexemes first, ih]

theorem fault_diagnostic_alike {e f : RuntimeError} (alike : e.Alike (.ofTokens same) f) :
    Diagnostic.Alike same e.diagnostic f.diagnostic := by
  obtain ⟨fault, token⟩ := alike
  have token : same e.token f.token := token.elim id id
  have message : e.message = f.message := by
    rw [RuntimeError.message, RuntimeError.message, fault, lexemes _ _ token]
  rw [RuntimeError.diagnostic, RuntimeError.diagnostic, message]
  exact .runtime token _

theorem fault_diagnostics_alike {x y : Option RuntimeError}
    (alike : Option.Rel (RuntimeError.Alike (.ofTokens same)) x y) :
    List.Forall₂ (Diagnostic.Alike same) (x.toList.map RuntimeError.diagnostic)
      (y.toList.map RuntimeError.diagnostic) := by
  cases alike with
  | none => exact .nil
  | some fault => exact .cons (fault_diagnostic_alike lexemes fault) .nil

include kinds

theorem of_tokens_lawful : (Likeness.ofTokens same).Lawful where
  kinds := kinds _ _
  lexemes := by
    intro s t s' t' first second
    rw [lexemes s t first, lexemes s' t' second]
  nil := rfl
  unary := by
    intro kind x y value
    have value : x = y := value
    rw [value]
    exact Agree.same _
  binary := by
    intro kind x y x' y' left right
    have left : x = y := left
    have right : x' = y' := right
    rw [left, right]
    exact Agree.same _

theorem course_of_tokens (env : Env) {stmts others : List Stmt}
    (alike : List.Forall₂ (Stmt.Alike (.ofTokens same)) stmts others) :
    (env.course stmts).effects = (env.course others).effects ∧
      List.Forall₂ (Diagnostic.Alike same)
        ((env.course stmts).fault.toList.map RuntimeError.diagnostic)
        ((env.course others).fault.toList.map RuntimeError.diagnostic) := by
  have envs : env.Alike (.ofTokens same) env := by
    intro s t name
    rw [lexemes s t name]
    cases env.get? t.lexeme with
    | none => exact .none
    | some value => exact .some rfl
  obtain ⟨effects, fault⟩ := course_alike (of_tokens_lawful kinds lexemes) envs alike
  exact ⟨effects_of_tokens lexemes effects, fault_diagnostics_alike lexemes fault⟩

theorem interpret_of_tokens (machine : Machine) {stmts others : List Stmt}
    (alike : List.Forall₂ (Stmt.Alike (.ofTokens same)) stmts others) :
    (machine.interpret stmts).1 = (machine.interpret others).1 ∧
      (machine.interpret stmts).2.result = (machine.interpret others).2.result ∧
      List.Forall₂ (Diagnostic.Alike same) (machine.interpret stmts).2.errors
        (machine.interpret others).2.errors := by
  obtain ⟨effects, faults⟩ := course_of_tokens kinds lexemes machine.env alike
  rw [Machine.interpret_course, Machine.interpret_course, effects]
  cases machine.performAll (machine.env.course others).effects with
  | mk next failed =>
    cases failed with
    | none => exact ⟨rfl, rfl, faults⟩
    | some error => exact ⟨rfl, rfl, .nil⟩

theorem run_of_tokens (machine : Machine) {a b : String} (cleanA : (scan a).errors = [])
    (cleanB : (scan b).errors = []) (tokens : List.Forall₂ same (scan a).tokens (scan b).tokens) :
    (machine.run a).1 = (machine.run b).1 ∧
      (machine.run a).2.result = (machine.run b).2.result ∧
      List.Forall₂ (Diagnostic.Alike same) (machine.run a).2.errors (machine.run b).2.errors := by
  obtain ⟨stmts, errors⟩ := Program.read_kinds_alike kinds tokens
  obtain ⟨left, result, faults⟩ := interpret_of_tokens kinds lexemes machine stmts
  have ends := is_empty_alike faults
  by_cases reads : (Program.read (scan a).tokens).errors = []
  · have reads' : (Program.read (scan b).tokens).errors = [] := by
      rw [reads] at errors
      exact List.forall₂_nil_left_iff.mp errors
    rw [machine.run_read cleanA reads, machine.run_read cleanB reads']
    dsimp only [Report.conclusion]
    refine ⟨left, ?_, faults⟩
    rw [result, ends]
  · have misreads : (Program.read (scan b).tokens).errors ≠ [] := by
      intro none
      rw [none] at errors
      exact reads (List.forall₂_nil_right_iff.mp errors)
    rw [machine.run_misread cleanA reads, machine.run_misread cleanB misreads]
    exact ⟨rfl, rfl, errors⟩

end

def Token.SameText (s t : Token) : Prop := s.kind = t.kind ∧ s.lexeme = t.lexeme

def Diagnostic.atLine (line : Nat) : Diagnostic → Diagnostic
  | .scan _ message => .scan line message
  | .parse _ location message => .parse line location message
  | .runtime _ lexeme message => .runtime line lexeme message

def Diagnostic.SamePlace (xs ys : List Token) (x y : Diagnostic) : Prop :=
  ∃ (index : Nat) (s t : Token), xs[index]? = some s ∧ ys[index]? = some t ∧
    x.line = s.line ∧ y = x.atLine t.line

def Token.SameIndex (xs ys : List Token) (s t : Token) : Prop :=
  s.SameText t ∧ ∃ index : Nat, xs[index]? = some s ∧ ys[index]? = some t

theorem same_index {xs ys : List Token} (texts : List.Forall₂ Token.SameText xs ys) :
    List.Forall₂ (Token.SameIndex xs ys) xs ys := by
  obtain ⟨size, each⟩ := List.forall₂_iff_get.mp texts
  refine List.forall₂_iff_get.mpr ⟨size, ?_⟩
  intro index left right
  exact ⟨each index left right, index, List.getElem?_eq_getElem left, List.getElem?_eq_getElem right⟩

theorem same_place {xs ys : List Token} {x y : Diagnostic}
    (alike : Diagnostic.Alike (Token.SameIndex xs ys) x y) : x.SamePlace xs ys y := by
  cases alike with
  | @parse s t place message =>
    obtain ⟨⟨kind, lexeme⟩, index, left, right⟩ := place
    refine ⟨index, s, t, left, right, rfl, ?_⟩
    have location : Diagnostic.location s = Diagnostic.location t := by
      rw [Diagnostic.location, Diagnostic.location, Token.isEnd, Token.isEnd, kind, lexeme]
    rw [Diagnostic.parseAt, Diagnostic.parseAt, location]
    rfl
  | @runtime s t place message =>
    obtain ⟨⟨_, lexeme⟩, index, left, right⟩ := place
    refine ⟨index, s, t, left, right, rfl, ?_⟩
    rw [Diagnostic.runtimeAt, Diagnostic.runtimeAt, lexeme]
    rfl

theorem run_layout (machine : Machine) {a b : String} (cleanA : (scan a).errors = [])
    (cleanB : (scan b).errors = [])
    (texts : List.Forall₂ Token.SameText (scan a).tokens (scan b).tokens) :
    (machine.run a).1 = (machine.run b).1 ∧
      (machine.run a).2.result = (machine.run b).2.result ∧
      List.Forall₂ (Diagnostic.SamePlace (scan a).tokens (scan b).tokens) (machine.run a).2.errors
        (machine.run b).2.errors := by
  obtain ⟨after, result, errors⟩ := run_of_tokens (fun _ _ same => same.1.1)
    (fun _ _ same => same.1.2) machine cleanA cleanB (same_index texts)
  exact ⟨after, result, errors.imp fun _ _ alike => same_place alike⟩

def narrow : String := "print nil;\nprint -nil;"

def wide : String := "print // shown\n  nil;\n\n\tprint - nil\n;"

theorem run_layout_wide :
    ((scan narrow).errors = [] ∧ (scan wide).errors = [] ∧
      List.Forall₂ Token.SameText (scan narrow).tokens (scan wide).tokens) ∧
    ((Machine.new (.new none false)).run narrow).1 = ((Machine.new (.new none false)).run wide).1 ∧
    ((Machine.new (.new none false)).run narrow).2.result =
      ((Machine.new (.new none false)).run wide).2.result ∧
    List.Forall₂ (Diagnostic.SamePlace (scan narrow).tokens (scan wide).tokens)
      ((Machine.new (.new none false)).run narrow).2.errors
      ((Machine.new (.new none false)).run wide).2.errors ∧
    ((Machine.new (.new none false)).run narrow).2.errors =
      [.runtime 2 "-" "Operand must be a number."] ∧
    ((Machine.new (.new none false)).run wide).2.errors =
      [.runtime 4 "-" "Operand must be a number."] := by
  have cleanA : (scan narrow).errors = [] := by decide +kernel
  have cleanB : (scan wide).errors = [] := by decide +kernel
  have left : (scan narrow).tokens =
      [⟨.keyword .print, "print", 1⟩, ⟨.keyword .nil, "nil", 1⟩, ⟨.mark .semicolon, ";", 1⟩,
        ⟨.keyword .print, "print", 2⟩, ⟨.mark .minus, "-", 2⟩, ⟨.keyword .nil, "nil", 2⟩,
        ⟨.mark .semicolon, ";", 2⟩, .atEnd 2] := by rfl
  have right : (scan wide).tokens =
      [⟨.keyword .print, "print", 1⟩, ⟨.keyword .nil, "nil", 2⟩, ⟨.mark .semicolon, ";", 2⟩,
        ⟨.keyword .print, "print", 4⟩, ⟨.mark .minus, "-", 4⟩, ⟨.keyword .nil, "nil", 4⟩,
        ⟨.mark .semicolon, ";", 5⟩, .atEnd 5] := by rfl
  have texts : List.Forall₂ Token.SameText (scan narrow).tokens (scan wide).tokens := by
    rw [left, right]
    exact .cons ⟨rfl, rfl⟩ (.cons ⟨rfl, rfl⟩ (.cons ⟨rfl, rfl⟩ (.cons ⟨rfl, rfl⟩ (.cons ⟨rfl, rfl⟩
      (.cons ⟨rfl, rfl⟩ (.cons ⟨rfl, rfl⟩ (.cons ⟨rfl, rfl⟩ .nil)))))))
  obtain ⟨left, result, places⟩ := run_layout _ cleanA cleanB texts
  exact ⟨⟨cleanA, cleanB, texts⟩, left, result, places, by decide +kernel, by decide +kernel⟩

end Lox
