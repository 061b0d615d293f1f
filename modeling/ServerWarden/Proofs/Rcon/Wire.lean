/-
# A session and its senders in any order

A session, its owner, and any number of senders, each of which goes on a step at a time.
`Session.Move` says once what a session can do, with everything that comes of it, and `Wire.Step` is
one step of any of them.  `Wire.Run` is any number of steps from the beginning on, with their
history.

A sender has two steps.  It finds the queue of a connection, and later it puts its frame there; in
between the connection may have ended, and another one may have been made.  Each send has a number,
so that two of the same text are told apart.

What the other side of the wire has seen of a frame whose write failed is not known.  So a failed
write may have written the frame or not (`Step.torn`).
-/
import Mathlib.Data.Finset.Basic
import ServerWarden.Proofs.Lists
import ServerWarden.Rcon.Session

namespace ServerWarden.Rcon

/-! ## 1. What a session can do -/

namespace Session

/-- How a connection ends: by what, for which reason, and with which effects. -/
inductive Ends (s : Session) : Happening → String → List SessionEffect → Prop where
  | peer (reason : Option String) : Ends s (.received (.close reason)) (closeReason reason) []
  | unreadable (why : String) : Ends s (.readFailed why) s!"read failed: {why}" []
  | exhausted : Ends s .streamEnded "stream ended" []
  | unwritable (why : String) : s.queue ≠ [] →
      Ends s (.writeFailed why) s!"write failed: {why}" []
  | closed : s.isClosed = true → Ends s .cancelled "closed locally" [.writeClose]
  | drained : s.isClosed = true → s.queue = [] → Ends s .drained "outbound channel closed" []

/-- **One happening**, and what follows from it. -/
inductive Move (s : Session) : Happening → Session → List SessionEffect → Prop where
  | start : s.place = .idle → Move s .started { s with place := .dialing, state := .connecting } []
  | connect : s.place = .dialing →
      Move s .connected
        { s with
          place := .pumping
          state := .established
          nextWait := firstWait
          connections := s.connections + 1
          outbound := some (s.connections + 1)
          queue := [] } [.tell .opened]
  | fail (why : String) : s.place = .dialing →
      Move s (.refused why) { s with place := .decided, state := .disconnected }
        [.tell (.failed why)]
  | hear (text : String) : s.place = .pumping →
      Move s (.received (.text text)) s [.tell (.message text)]
  | ignore : s.place = .pumping → Move s (.received .other) s []
  | write {payload : String} {rest : List String} : s.place = .pumping →
      s.queue = payload :: rest →
      Move s .wrote { s with queue := rest } [.write s.connections payload]
  | finish {h : Happening} {reason : String} {effects : List SessionEffect} :
      s.place = .pumping → Ends s h reason effects → Move s h (s.finish reason) effects
  | notice (reason : String) : s.place = .ended reason →
      Move s .settled { s with place := .decided, state := .disconnected, outbound := none }
        [.tell (.closed reason)]
  | pause : s.place = .decided → s.isClosed = false →
      Move s .settled { s with place := .waiting s.nextWait } []
  | stop : s.place = .decided → s.isClosed = true → Move s .settled s.quit []
  | resume (d : Duration) : s.place = .waiting d →
      Move s .waited
        { s with place := .dialing, state := .connecting, nextWait := doubled s.nextWait } []
  | abandon : (s.place = .dialing ∨ ∃ d, s.place = .waiting d) → s.isClosed = true →
      Move s .cancelled s.quit []

variable {s s' : Session} {h : Happening} {effects : List SessionEffect}

/-- **What a session does** is one of its moves. -/
theorem move_of_step? (hstep : s.step? h = some (s', effects)) : Move s h s' effects := by
  unfold step? at hstep
  split at hstep
  case h_1 hplace =>
    cases hstep
    exact .start hplace
  case h_2 hplace =>
    cases hstep
    exact .connect hplace
  case h_3 why hplace =>
    cases hstep
    exact .fail why hplace
  case h_4 text hplace =>
    cases hstep
    exact .hear text hplace
  case h_5 hplace =>
    cases hstep
    exact .ignore hplace
  case h_6 reason hplace =>
    cases hstep
    exact .finish hplace (.peer reason)
  case h_7 why hplace =>
    cases hstep
    exact .finish hplace (.unreadable why)
  case h_8 hplace =>
    cases hstep
    exact .finish hplace .exhausted
  case h_9 hplace =>
    split at hstep
    · exact nomatch hstep
    · next hqueue =>
      cases hstep
      exact .write hplace hqueue
  case h_10 why hplace =>
    split at hstep
    · exact nomatch hstep
    · next hqueue =>
      cases hstep
      exact .finish hplace (.unwritable why fun hnil => hqueue (List.isEmpty_iff.mpr hnil))
  case h_11 hplace =>
    split at hstep
    · next hclosed =>
      cases hstep
      exact .finish hplace (.closed hclosed)
    · exact nomatch hstep
  case h_12 hplace =>
    split at hstep
    · next hdrained =>
      cases hstep
      exact .finish hplace (.drained hdrained.1 (List.isEmpty_iff.mp hdrained.2))
    · exact nomatch hstep
  case h_13 reason hplace =>
    cases hstep
    exact .notice reason hplace
  case h_14 hplace =>
    split at hstep
    · next hclosed =>
      cases hstep
      exact .stop hplace hclosed
    · next hclosed =>
      cases hstep
      exact .pause hplace (Bool.not_eq_true _ ▸ hclosed)
  case h_15 d hplace =>
    cases hstep
    exact .resume d hplace
  case h_16 hplace =>
    split at hstep
    · next hclosed =>
      cases hstep
      exact .abandon (.inl hplace) hclosed
    · exact nomatch hstep
  case h_17 d hplace =>
    split at hstep
    · next hclosed =>
      cases hstep
      exact .abandon (.inr ⟨d, hplace⟩) hclosed
    · exact nomatch hstep
  case h_18 => exact nomatch hstep

/-- A queue takes a frame while its connection moves frames, and only then. -/
theorem enqueue_eq_ok {c : Nat} {payload : String} : s.enqueue c payload = .ok s' ↔
    (s.place = .pumping ∧ s.connections = c) ∧ s' = { s with queue := s.queue ++ [payload] } := by
  unfold enqueue
  constructor
  · intro h
    split at h
    · next hopen =>
      cases h
      exact ⟨hopen, rfl⟩
    · exact nomatch h
  · rintro ⟨hopen, rfl⟩
    rw [if_pos hopen]

end Session

/-! ## 2. The system -/

/-- A frame that a sender brings to the queue of a connection. -/
structure Parcel where
  /-- Which send it is. -/
  number : Nat
  payload : String
  /-- The connection whose queue the sender found. -/
  connection : Nat
  deriving DecidableEq

/-- What goes over the wire when it is written. -/
def Parcel.frame (p : Parcel) : Nat × String := (p.connection, p.payload)

/-- What is done in one step. -/
inductive Deed where
  | happened (h : Happening) (effects : List SessionEffect)
  /-- The owner closed the session. -/
  | closed
  /-- A sender found no queue, and its send returned that. -/
  | missed (number : Nat) (payload : String)
  /-- A sender found a queue. -/
  | found (p : Parcel)
  /-- A sender put its frame into the queue it had found, or could not, and its send returned. -/
  | returned (p : Parcel) (result : Except TransportFault Unit)

/-- A session and those who use it. -/
structure Wire where
  session : Session
  /-- How many sends were begun. -/
  begun : Nat
  /-- The sends that are between their two steps. -/
  held : Finset Parcel

namespace Wire

def initial : Wire := ⟨.initial, 0, ∅⟩

/-- **One step** of anyone. -/
inductive Step : Wire → Deed → Wire → Prop where
  | happen {w : Wire} {h : Happening} {session : Session} {effects : List SessionEffect} :
      w.session.step? h = some (session, effects) →
      Step w (.happened h effects) { w with session }
  /-- A write failed, but the frame had gone out. -/
  | torn {w : Wire} {why payload : String} {rest : List String} {session : Session}
      {effects : List SessionEffect} :
      w.session.queue = payload :: rest →
      w.session.step? (.writeFailed why) = some (session, effects) →
      Step w (.happened (.writeFailed why) (.write w.session.connections payload :: effects))
        { w with session }
  | close (w : Wire) : Step w .closed { w with session := w.session.close }
  | miss {w : Wire} (payload : String) : w.session.outbound = none →
      Step w (.missed w.begun payload) { w with begun := w.begun + 1 }
  | find {w : Wire} {c : Nat} (payload : String) : w.session.outbound = some c →
      Step w (.found ⟨w.begun, payload, c⟩)
        { w with begun := w.begun + 1, held := insert ⟨w.begun, payload, c⟩ w.held }
  | accept {w : Wire} {p : Parcel} {session : Session} : p ∈ w.held →
      w.session.enqueue p.connection p.payload = .ok session →
      Step w (.returned p (.ok ())) { w with session, held := w.held.erase p }
  | refuse {w : Wire} {p : Parcel} {fault : TransportFault} : p ∈ w.held →
      w.session.enqueue p.connection p.payload = .error fault →
      Step w (.returned p (.error fault)) { w with held := w.held.erase p }

/-- **A run** from the beginning on, with its history. -/
inductive Run : List Deed → Wire → Prop where
  | start : Run [] initial
  | step {history : List Deed} {d : Deed} {w w' : Wire} :
      Run history w → Step w d w' → Run (history ++ [d]) w'

/-- A send without a pause is two steps in a row. -/
theorem Step.send {w : Wire} {payload : String} {session : Session}
    (h : w.session.send payload = .ok session) : ∃ p w₁ w₂, p.payload = payload ∧
      Step w (.found p) w₁ ∧ Step w₁ (.returned p (.ok ())) w₂ ∧ w₂.session = session := by
  unfold Session.send at h
  split at h
  · exact nomatch h
  · next c hfound =>
    exact ⟨⟨w.begun, payload, c⟩, _, _, rfl, .find payload hfound,
      .accept (Finset.mem_insert_self _ _) h, rfl⟩

/-- A run up to any of its deeds is a run, and the deed is its next step. -/
theorem Run.split {before after : List Deed} {d : Deed} {w : Wire}
    (h : Run (before ++ d :: after) w) : ∃ w₁ w₂, Run before w₁ ∧ Step w₁ d w₂ := by
  generalize hhistory : before ++ d :: after = history at h
  induction h generalizing after with
  | start => simp at hhistory
  | @step history last w w' hrun hstep ih =>
    -- the last deed is `d` itself, or one of those after it
    rcases cut_of_concat hhistory with ⟨rfl, rfl, -⟩ | ⟨rest, -, hrest⟩
    · exact ⟨w, w', hrun, hstep⟩
    · exact ih hrest

end Wire

/-! ## 3. What a history tells -/

/-- The event that is told. -/
def SessionEffect.event? : SessionEffect → Option SessionEvent
  | .tell event => some event
  | _ => none

/-- The frame that is written, with the number of its connection. -/
def SessionEffect.frame? : SessionEffect → Option (Nat × String)
  | .write connection payload => some (connection, payload)
  | _ => none

def SessionEvent.message? : SessionEvent → Option String
  | .message text => some text
  | _ => none

namespace Deed

def effects : Deed → List SessionEffect
  | .happened _ effects => effects
  | _ => []

/-- The events that the owner is told. -/
def told (d : Deed) : List SessionEvent := d.effects.filterMap SessionEffect.event?

/-- The frames that are written. -/
def written (d : Deed) : List (Nat × String) := d.effects.filterMap SessionEffect.frame?

/-- The text frames that come in. -/
def heard : Deed → List String
  | .happened (.received (.text text)) _ => [text]
  | _ => []

/-- The frames that a queue takes, the sends of which so return without a fault. -/
def accepted : Deed → List Parcel
  | .returned p (.ok _) => [p]
  | _ => []

end Deed
end ServerWarden.Rcon
