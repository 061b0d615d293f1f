/-
# A console session

A session keeps a connection to the console.  It connects, moves frames in both directions, and when
the connection ends or cannot be made it waits and connects again.  The wait doubles from one second
up to half a minute, and starts anew with a connection.

Each connection has a queue of its own.  A sender looks for the queue first and puts its frame in
second; if the connection has ended in between, the frame is refused.  What a queue still holds at
the end of its connection is never written.

A session goes on by happenings.  Of those that can happen at one place any may come first.
-/
import ServerWarden.Fault
import ServerWarden.Time.Duration

namespace ServerWarden.Rcon

/-- What a session says about its connection. -/
inductive ConnectionState where
  | disconnected
  | connecting
  | established
  deriving DecidableEq, Repr

/-- What a session tells its owner. -/
inductive SessionEvent where
  | opened
  | message (text : String)
  | closed (reason : String)
  | failed (why : String)
  deriving DecidableEq, Repr

/-- A frame from the other side. -/
inductive WireFrame where
  | text (s : String)
  | close (reason : Option String)
  /-- A frame that means nothing here, such as a ping. -/
  | other
  deriving DecidableEq, Repr

inductive SessionPlace where
  /-- It was not started. -/
  | idle
  /-- It tries to connect. -/
  | dialing
  /-- It moves frames. -/
  | pumping
  /-- The connection and its queue are gone, and nobody knows. -/
  | ended (reason : String)
  /-- An attempt or a connection is over. -/
  | decided
  | waiting (d : Duration)
  | over
  deriving DecidableEq, Repr

structure Session where
  place : SessionPlace
  state : ConnectionState
  /-- How long the next wait is. -/
  nextWait : Duration
  /-- Whether the owner has closed the session. -/
  isClosed : Bool
  /-- The number of connections made so far, which is the number of the latest. -/
  connections : Nat
  /-- The connection whose queue senders find. -/
  outbound : Option Nat
  /-- What the latest connection has still to write, the oldest first. -/
  queue : List String
  deriving DecidableEq, Repr

/-- What can happen to a session. -/
inductive Happening where
  | started
  | connected
  | refused (why : String)
  | received (frame : WireFrame)
  | readFailed (why : String)
  | streamEnded
  /-- The oldest frame of the queue is written. -/
  | wrote
  /-- The oldest frame of the queue cannot be written. -/
  | writeFailed (why : String)
  /-- The session takes notice of being closed. -/
  | cancelled
  /-- The queue is found to be empty for good. -/
  | drained
  /-- The session goes on by itself. -/
  | settled
  /-- The wait is over. -/
  | waited

/-- What a session does. -/
inductive SessionEffect where
  | tell (event : SessionEvent)
  | write (connection : Nat) (payload : String)
  | writeClose
  deriving DecidableEq, Repr

namespace Session

def firstWait : Duration := .ofSecs 1

def longestWait : Duration := .ofSecs 30

def initial : Session := ⟨.idle, .disconnected, firstWait, false, 0, none, []⟩

/-- The wait after a wait. -/
def doubled (d : Duration) : Duration :=
  if longestWait < d + d then longestWait else d + d

/-- The reason that a closing frame gives. -/
def closeReason : Option String → String
  | some reason => if reason.isEmpty then "closed by peer" else reason
  | none => "closed by peer"

/-- The connection ends.  Its queue goes with it. -/
def finish (s : Session) (reason : String) : Session :=
  { s with place := .ended reason, queue := [] }

/-- The session is over. -/
def quit (s : Session) : Session := { s with place := .over, state := .disconnected }

/-! ## 1. The owner -/

/-- The owner closes the session. -/
def close (s : Session) : Session := { s with isClosed := true, outbound := none }

/-- Puts a frame into the queue of a connection, if that still moves frames. -/
def enqueue (s : Session) (connection : Nat) (payload : String) : Except TransportFault Session :=
  if s.place = .pumping ∧ s.connections = connection then
    .ok { s with queue := s.queue ++ [payload] }
  else .error .connectionClosed

/-- Both steps of a sender together. -/
def send (s : Session) (payload : String) : Except TransportFault Session :=
  match s.outbound with
  | none => .error .notConnected
  | some connection => s.enqueue connection payload

/-! ## 2. The session itself -/

/-- What follows from a happening, if it can happen. -/
def step? (s : Session) (h : Happening) : Option (Session × List SessionEffect) :=
  match s.place, h with
  | .idle, .started => some ({ s with place := .dialing, state := .connecting }, [])
  | .dialing, .connected =>
    some ({ s with
      place := .pumping
      state := .established
      nextWait := firstWait
      connections := s.connections + 1
      outbound := some (s.connections + 1)
      queue := [] }, [.tell .opened])
  | .dialing, .refused why =>
    some ({ s with place := .decided, state := .disconnected }, [.tell (.failed why)])
  | .pumping, .received (.text t) => some (s, [.tell (.message t)])
  | .pumping, .received .other => some (s, [])
  | .pumping, .received (.close reason) => some (s.finish (closeReason reason), [])
  | .pumping, .readFailed why => some (s.finish s!"read failed: {why}", [])
  | .pumping, .streamEnded => some (s.finish "stream ended", [])
  | .pumping, .wrote =>
    match s.queue with
    | [] => none
    | payload :: rest => some ({ s with queue := rest }, [.write s.connections payload])
  | .pumping, .writeFailed why =>
    if s.queue.isEmpty then none else some (s.finish s!"write failed: {why}", [])
  | .pumping, .cancelled =>
    if s.isClosed then some (s.finish "closed locally", [.writeClose]) else none
  | .pumping, .drained =>
    if s.isClosed ∧ s.queue.isEmpty then some (s.finish "outbound channel closed", []) else none
  | .ended reason, .settled =>
    some ({ s with place := .decided, state := .disconnected, outbound := none },
      [.tell (.closed reason)])
  | .decided, .settled =>
    if s.isClosed then some (s.quit, []) else some ({ s with place := .waiting s.nextWait }, [])
  | .waiting _, .waited =>
    some ({ s with place := .dialing, state := .connecting, nextWait := doubled s.nextWait }, [])
  | .dialing, .cancelled | .waiting _, .cancelled =>
    if s.isClosed then some (s.quit, []) else none
  | _, _ => none

/-- Several happenings in a row. -/
def steps? (s : Session) : List Happening → Option (Session × List SessionEffect)
  | [] => some (s, [])
  | h :: rest => do
    let (s, effects) ← s.step? h
    let (s, more) ← s.steps? rest
    return (s, effects ++ more)

end Session
end ServerWarden.Rcon
