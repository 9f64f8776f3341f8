set_option autoImplicit false

namespace Lox

inductive SinkError where
  | limitReached
  | flushFailed
deriving DecidableEq

def SinkError.message : SinkError → String
  | .limitReached => "output limit reached"
  | .flushFailed => "flush failed"

structure Sink where
  written : ByteArray
  limit : Option Nat
  flushFails : Bool
  flushed : List ByteArray

namespace Sink

def new (limit : Option Nat) (flushFails : Bool) : Sink :=
  ⟨ByteArray.empty, limit, flushFails, []⟩

-- Bytes that fit are kept even when the write fails.
def write (sink : Sink) (text : String) : Sink × Option SinkError :=
  let all := sink.written ++ text.toUTF8
  match sink.limit with
  | none => ({ sink with written := all }, none)
  | some limit =>
    if all.size ≤ limit then ({ sink with written := all }, none)
    else ({ sink with written := all.extract 0 limit }, some .limitReached)

-- Every flush keeps what had been written by then, the latest first.
def flush (sink : Sink) : Sink × Option SinkError :=
  ({ sink with flushed := sink.written :: sink.flushed },
    if sink.flushFails then some .flushFailed else none)

def since (sink earlier : Sink) : ByteArray :=
  sink.written.extract earlier.written.size sink.written.size

end Sink
end Lox
