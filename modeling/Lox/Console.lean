import Lox.Machine

set_option autoImplicit false

namespace Lox

structure Transcript where
  stdout : ByteArray
  stderr : String
  exit : UInt32

inductive ReadFault where
  | notText
  | missing
  | other (reason : String)

def ReadFault.message : ReadFault → String
  | .notText => "stream did not contain valid UTF-8"
  | .missing => "No such file or directory (os error 2)"
  | .other reason => reason

namespace Console

def exitUnread : UInt32 := 66
def exitBroken : UInt32 := 74

def exitOf : Outcome → UInt32
  | .completed => 0
  | .staticError => 65
  | .runtimeError => 70

def unread (path : String) (fault : ReadFault) : Transcript :=
  ⟨ByteArray.empty, "Could not read '" ++ path ++ "': " ++ fault.message ++ "\n", exitUnread⟩

def errorLines (errors : List Diagnostic) : String :=
  String.join (errors.map fun error => error.text ++ "\n")

def fresh : Machine := .new (.new none false)

def runScript (path : String) (content : ByteArray) : Transcript :=
  match String.fromUTF8? content with
  | none => unread path .notText
  | some source =>
    let ran := fresh.run source
    match ran.2.result with
    | .ok outcome => ⟨ran.1.sink.written, errorLines ran.2.errors, exitOf outcome⟩
    | .error error =>
      ⟨ran.1.sink.written, errorLines ran.2.errors ++ error.message ++ "\n", exitBroken⟩

def lineFeed : UInt8 := 10
def carriageReturn : UInt8 := 13

-- The bytes of a line are collected in reverse. Its end is a line feed, or a carriage
-- return and a line feed; the last line may have no end.
def linesFrom (reversed : List UInt8) : List UInt8 → List (List UInt8)
  | [] => if reversed.isEmpty then [] else [reversed.reverse]
  | byte :: rest =>
    if byte == lineFeed then
      let line := if reversed.head? == some carriageReturn then reversed.tail else reversed
      line.reverse :: linesFrom [] rest
    else linesFrom (byte :: reversed) rest

def lines (input : List UInt8) : List (List UInt8) := linesFrom [] input

-- An exchange serves any monad: the program runs it on its streams, runPrompt on a tape.
structure Terminal (m : Type → Type) where
  read : m (Option (List UInt8))
  print : ByteArray → m Unit
  complain : String → m Unit

section Exchange

variable {m : Type → Type} [Monad m]

def answer (terminal : Terminal m) (env : Env) (line : List UInt8) : m (Except UInt32 Env) := do
  match String.fromUTF8? ⟨line.toArray⟩ with
  | none =>
    terminal.complain (ReadFault.message .notText ++ "\n")
    return .error exitBroken
  | some source =>
    let ran := (Machine.mk env (.new none false)).run source
    terminal.print ran.1.sink.written
    terminal.complain (errorLines ran.2.errors)
    match ran.2.result with
    | .ok _ => return .ok ran.1.env
    | .error error =>
      terminal.complain (error.message ++ "\n")
      return .error exitBroken

def exchange (terminal : Terminal m) (env : Env) : m (Except UInt32 Env) := do
  terminal.print "> ".toUTF8
  match ← terminal.read with
  | none => return .error 0
  | some line => answer terminal env line

end Exchange

structure Tape where
  unread : List (List UInt8)
  stdout : ByteArray
  stderr : String

def onTape : Terminal (StateM Tape) where
  read tape := (tape.unread.head?, { tape with unread := tape.unread.tail })
  print bytes tape := ((), { tape with stdout := tape.stdout ++ bytes })
  complain text tape := ((), { tape with stderr := tape.stderr ++ text })

theorem exchange_line (env : Env) (line : List UInt8) (rest : List (List UInt8))
    (stdout : ByteArray) (stderr : String) :
    exchange onTape env ⟨line :: rest, stdout, stderr⟩ =
      answer onTape env line ⟨rest, stdout ++ "> ".toUTF8, stderr⟩ := rfl

theorem answer_reads (env : Env) (line : List UInt8) (tape : Tape) :
    (answer onTape env line tape).2.unread = tape.unread := by
  rw [answer]
  cases String.fromUTF8? ⟨line.toArray⟩ with
  | none => rfl
  | some source =>
    dsimp only
    cases ((Machine.mk env (.new none false)).run source).2.result with
    | ok outcome => rfl
    | error error => rfl

theorem exchange_reads {env next : Env} {tape left : Tape}
    (turn : exchange onTape env tape = (.ok next, left)) :
    left.unread.length < tape.unread.length := by
  obtain ⟨unread, stdout, stderr⟩ := tape
  cases unread with
  | nil => cases turn
  | cons line rest =>
    have same := answer_reads env line ⟨rest, stdout ++ "> ".toUTF8, stderr⟩
    rw [← exchange_line, turn] at same
    rw [same]
    exact Nat.lt_succ_self _

def converse (env : Env) (tape : Tape) : Transcript :=
  match _turn : exchange onTape env tape with
  | (.error code, ended) => ⟨ended.stdout, ended.stderr, code⟩
  | (.ok next, left) => converse next left
termination_by tape.unread.length
decreasing_by
  exact exchange_reads _turn

def runPrompt (input : ByteArray) : Transcript :=
  converse .empty ⟨lines input.data.toList, ByteArray.empty, ""⟩

end Console
end Lox
