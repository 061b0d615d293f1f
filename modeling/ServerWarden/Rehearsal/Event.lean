/-
# What is seen in a rehearsal

A rehearsal runs a control program against surroundings that follow a script, on a clock that moves
only when nothing else can happen.  What the surroundings are asked for is seen as events, each with
the millisecond at which it happened.
-/
import ServerWarden.Coordinator.Basic
import ServerWarden.Log

namespace ServerWarden

namespace TimerPhase

def name : TimerPhase → String
  | .run => "Run"
  | .pause => "Pause"
  | .stop => "Stop"

end TimerPhase

namespace Rehearsal

/-- What an event says beside its name. -/
inductive Detail where
  | text (s : String)
  | number (n : Nat)
  | flag (b : Bool)
  deriving DecidableEq, Repr

structure Event where
  /-- The milliseconds since the start. -/
  time : Nat
  name : String
  details : List Detail
  deriving DecidableEq, Repr

/-- What a log line looks like among the events, if it is loud enough to be one. -/
def lineDetails? (level : Log.Level) (text : String) : Option (List Detail) :=
  if Log.Level.warn.rank ≤ level.rank then some [.text level.name, .text text] else none

end Rehearsal
end ServerWarden
