import Lox.Console

set_option autoImplicit false

namespace Lox.Console

def readFault : IO.Error → ReadFault
  | .noFileOrDirectory .. => .missing
  | error => .other (toString error)

partial def readRaw (input : IO.FS.Stream) (sofar : ByteArray) : IO ByteArray := do
  let next ← input.read 1
  let all := sofar ++ next
  if next.isEmpty || next.data[0]? == some lineFeed then return all else readRaw input all

def onStreams : Terminal IO where
  read := do
    let line ← readRaw (← IO.getStdin) ByteArray.empty
    return (lines line.data.toList).head?
  print bytes := do
    let output ← IO.getStdout
    output.write bytes
    output.flush
  complain text := do
    (← IO.getStderr).putStr text

def present (transcript : Transcript) : IO UInt32 := do
  onStreams.print transcript.stdout
  onStreams.complain transcript.stderr
  return transcript.exit

def serveScript (path : String) : IO UInt32 := do
  match ← (IO.FS.readBinFile path).toBaseIO with
  | .ok content => present (runScript path content)
  | .error error => present (unread path (readFault error))

partial def servePrompt (env : Env) : IO UInt32 := do
  match ← exchange onStreams env with
  | .error code => return code
  | .ok next => servePrompt next

end Lox.Console

def main (arguments : List String) : IO UInt32 := do
  match arguments with
  | [] => Lox.Console.servePrompt .empty
  | [path] => Lox.Console.serveScript path
  | _ =>
    (← IO.getStderr).putStrLn "usage: lox [script]"
    return 1
