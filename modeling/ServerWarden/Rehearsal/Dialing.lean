/-
# Sessions that never connect

A rehearsal of console sessions where every attempt to connect fails at once: what the sessions tell
their owner, and when.
-/
import ServerWarden.Rcon.Session

namespace ServerWarden.Rehearsal

open Rcon (Session SessionEvent)

/-- A session, and the moment until which it waits. -/
structure Line where
  session : Session
  wake : Option Instant

/-- What an owner has: the lines that were started, and what they told since the last look, the
latest first. -/
structure Dialing where
  now : Instant
  lines : List Line
  told : List (Nat × SessionEvent)

namespace Dialing

def initial : Dialing := ⟨.start, [], []⟩

/-- What the attempts fail with. -/
def noRoute : String := "no route to the console"

/-- Lets a line go on by some happenings, as far as they can happen. -/
def follow (d : Dialing) (l : Line) (hs : List Rcon.Happening) : Line × Dialing :=
  match l.session.steps? hs with
  | none => (l, d)
  | some (session, effects) =>
    let told := effects.filterMap fun
      | .tell e => some (d.now.millis, e)
      | _ => none
    let wake := match session.place with
      | .waiting time => some (d.now.add time)
      | _ => none
    (⟨session, wake⟩, { d with told := told.reverse ++ d.told })

/-- Starts a line. -/
def dial (d : Dialing) : Dialing :=
  let (l, d) := d.follow ⟨.initial, none⟩ [.started, .refused noRoute, .settled]
  { d with lines := d.lines ++ [l] }

/-- Closes all lines. -/
def close (d : Dialing) : Dialing :=
  { d with
    lines := d.lines.map fun l =>
      let session := l.session.close
      match session.step? .cancelled with
      | some (session, _) => ⟨session, none⟩
      | none => ⟨session, l.wake⟩ }

/-- The moment at which the next attempt is due. -/
def nextWake? (d : Dialing) : Option Instant :=
  d.lines.foldl (fun soonest l =>
    match soonest, l.wake with
    | some a, some b => some (a.earliest b)
    | some a, none => some a
    | none, b => b) none

/-- Lets all lines whose wait is over try again. -/
def redial (d : Dialing) : Dialing :=
  d.lines.foldl (fun d l =>
    let (l, d) :=
      if l.wake.any fun time => decide (time ≤ d.now) then
        d.follow l [.waited, .refused noRoute, .settled]
      else (l, d)
    { d with lines := d.lines ++ [l] }) { d with lines := [] }

/-- Lets time pass up to a moment, with at most `fuel` attempts. -/
def passTo (time : Instant) : Nat → Dialing → Dialing
  | 0, d => { d with now := time }
  | fuel + 1, d =>
    match d.nextWake? with
    | none => { d with now := time }
    | some wake =>
      if wake ≤ time then passTo time fuel { d with now := wake }.redial else { d with now := time }

/-- Lets time pass.  Attempts are at least a second apart, which bounds their number. -/
def pass (d : Dialing) (span : Duration) : Dialing :=
  passTo (d.now.add span) (d.lines.length * (span.secs + 1)) d

/-- Lets time pass until something is told, if something will be. -/
def listen (d : Dialing) : Dialing :=
  match d.nextWake? with
  | none => d
  | some wake => { d with now := wake }.redial

/-- What the owner sees of the connection. -/
def state (d : Dialing) : Rcon.ConnectionState :=
  match d.lines.getLast? with
  | some l => l.session.state
  | none => .disconnected

/-- Sends a frame. -/
def send (d : Dialing) (payload : String) : Except TransportFault Unit :=
  match d.lines.getLast? with
  | some l => (l.session.send payload).map fun _ => ()
  | none => .error .notConnected

/-- What was told since the last look. -/
def takeTold (d : Dialing) : List (Nat × SessionEvent) × Dialing :=
  (d.told.reverse, { d with told := [] })

end Dialing
end ServerWarden.Rehearsal
