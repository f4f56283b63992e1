import HiddenText.Errors
import HiddenText.Text.Utf8

/-! # Sinks

A sink is what a report is written to.  It may have a limit: a write that goes beyond it fills the
sink up to the limit and fails.  Flushing may fail as well. -/
set_option autoImplicit false

namespace HiddenText

structure Sink where
  accepted : Bytes := []
  /-- How many bytes are accepted in all, and how a write beyond fails. -/
  limit : Option (Nat × IoError) := none
  flushFailure : Option IoError := none
  deriving DecidableEq

namespace Sink

def write (s : Sink) (bytes : Bytes) : Sink × Option IoError :=
  match s.limit with
  | none => ({ s with accepted := s.accepted ++ bytes }, none)
  | some (limit, failure) =>
    let room := limit - s.accepted.length
    if bytes.length ≤ room then ({ s with accepted := s.accepted ++ bytes }, none)
    else ({ s with accepted := s.accepted ++ bytes.take room }, some failure)

end Sink

/-- The two sinks of a program. -/
structure Output where
  out : Sink := {}
  err : Sink := {}
  deriving DecidableEq

inductive Stream
  | out
  | err
  deriving DecidableEq, Repr

/-- One step of writing to them. -/
inductive Action
  | write (stream : Stream) (text : List Char)
  | flush (stream : Stream)
  deriving DecidableEq

namespace Output

def sink (o : Output) : Stream → Sink
  | .out => o.out
  | .err => o.err

def setSink (o : Output) (s : Sink) : Stream → Output
  | .out => { o with out := s }
  | .err => { o with err := s }

def act (o : Output) : Action → Output × Option IoError
  | .write stream text =>
    let (s, failure) := (o.sink stream).write (Utf8.encode text)
    (o.setSink s stream, failure)
  | .flush stream => (o, (o.sink stream).flushFailure)

/-- Takes actions up to the first that fails. -/
def perform (o : Output) : List Action → Output × Option IoError
  | [] => (o, none)
  | action :: rest =>
    match o.act action with
    | (o, none) => o.perform rest
    | (o, some failure) => (o, some failure)

end Output
end HiddenText
