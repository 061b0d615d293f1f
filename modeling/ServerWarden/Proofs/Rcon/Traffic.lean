/-
# Commands and frames in any order

A client with any number of commands under way, each of them at a step of its own, while frames come
in, the connection comes and goes, and time passes.  `Traffic.Step` is one step of any of them, by
the operations that the client itself runs, and `Traffic.Run` is any number of steps from the
connect on, with their history.  The source of identifiers is any sequence of numbers, and a
deadline is any moment.

What a command is owed is told by the history alone: `firstReply?` is the first frame with the
identifier of a command that came in after the command was registered.
-/
import Mathlib.Data.Finset.Basic
import Mathlib.Data.List.TakeWhile
import ServerWarden.Rcon.Client

namespace ServerWarden.Rcon

variable {α : Type}

/-! ## 1. The system -/

/-- The command that holds a ticket of the table. -/
def Sending.ticket? : Sending → Option Ticket
  | .registered t | .waiting t _ | .leaving t _ => some t
  | .finished _ => none

/-- The commands that a beginning adds to those under way. -/
def Opening.calls : Opening → Finset Sending
  | .registered t => {.registered t}
  | _ => ∅

/-- What happens in one step. -/
inductive Event (α : Type) where
  | passed (now : Instant)
  | switched (isOpen : Bool)
  | listened (listener : α)
  /-- A frame came in at a moment, and went somewhere. -/
  | arrived (now : Instant) (text : String) (delivery : Delivery α)
  | begun (timeout : Duration) (opening : Opening)
  | transmitted (ticket : Ticket) (deadline : Instant) (queued : Bool)
  /-- A waiting command ran, and stands somewhere now. -/
  | awaited (ticket : Ticket) (next : Sending)
  | returned (ticket : Ticket) (result : String)
  /-- A command was given up. -/
  | dropped (ticket : Ticket)

/-- A client and the commands under way. -/
structure Traffic (α : Type) where
  client : Client α
  now : Instant
  isOpen : Bool
  /-- How many identifiers were drawn from their source. -/
  drawn : Nat
  /-- The registered commands that are under way. -/
  calls : Finset Sending

namespace Traffic

def initial (settings : Settings) (isOpen : Bool) : Traffic α :=
  ⟨.connect settings, .start, isOpen, 0, ∅⟩

/-- Moves a command on. -/
def replace (s : Traffic α) (call next : Sending) : Traffic α :=
  { s with calls := insert next (s.calls.erase call) }

/-- Takes a command out. -/
def finish (s : Traffic α) (call : Sending) : Traffic α :=
  { s with client := call.leave s.client, calls := s.calls.erase call }

/-- Draws the next number of a source. -/
def drawFrom (source : Nat → Int) (drawn : Nat) : Int × Nat := (source drawn, drawn + 1)

/-- **One step** of anything under way. -/
inductive Step (source : Nat → Int) : Traffic α → Event α → Traffic α → Prop where
  | pass {s : Traffic α} {now : Instant} : s.now ≤ now →
      Step source s (.passed now) { s with now }
  | switch (s : Traffic α) (isOpen : Bool) :
      Step source s (.switched isOpen) { s with isOpen }
  | listen (s : Traffic α) (listener : α) :
      Step source s (.listened listener) { s with client := s.client.listen listener }
  | arrive (s : Traffic α) (text : String) :
      Step source s (.arrived s.now text (s.client.dispatch text).1)
        { s with client := (s.client.dispatch text).2 }
  | begin {s : Traffic α} {timeout : Duration} {fuel drawn : Nat} {opening : Opening}
      {client : Client α} :
      s.client.open? (drawFrom source) fuel s.drawn s.isOpen timeout
        = some (opening, drawn, client) →
      Step source s (.begun timeout opening)
        { s with client, drawn, calls := s.calls ∪ opening.calls }
  | transmit {s : Traffic α} {t : Ticket} (deadline : Instant) (queued : Bool) :
      .registered t ∈ s.calls →
      Step source s (.transmitted t deadline queued)
        (s.replace (.registered t) (.transmitted t deadline queued))
  | await {s : Traffic α} {t : Ticket} {deadline : Instant} : .waiting t deadline ∈ s.calls →
      Step source s (.awaited t (Sending.await s.client s.now t deadline).1)
        (s.replace (.waiting t deadline) (Sending.await s.client s.now t deadline).1)
  | leave {s : Traffic α} {t : Ticket} {result : String} : .leaving t result ∈ s.calls →
      Step source s (.returned t result) (s.finish (.leaving t result))
  | drop {s : Traffic α} {t : Ticket} {call : Sending} :
      call ∈ s.calls → call.ticket? = some t → Step source s (.dropped t) (s.finish call)

/-- **A run** from the connect on, with its history. -/
inductive Run (source : Nat → Int) (settings : Settings) : List (Event α) → Traffic α → Prop where
  | start (isOpen : Bool) : Run source settings [] (initial settings isOpen)
  | step {events : List (Event α)} {e : Event α} {s s' : Traffic α} :
      Run source settings events s → Step source s e s' → Run source settings (events ++ [e]) s'

end Traffic

/-! ## 2. What a history tells -/

/-- A well-formed frame that is no announcement. -/
def Settings.reply? (settings : Settings) (text : String) : Option Frame :=
  (Frame.read? text).filter fun f => !f.isBroadcast settings.chatIdentifier

/-- A frame that came in for an identifier. -/
structure Reply (α : Type) where
  time : Instant
  frame : Frame
  delivery : Delivery α

namespace Event

/-- The command that was registered. -/
def registers? : Event α → Option Ticket
  | .begun _ (.registered t) => some t
  | _ => none

/-- The command that left the table. -/
def leaves? : Event α → Option Ticket
  | .returned t _ | .dropped t => some t
  | _ => none

/-- The reply that came in for an identifier. -/
def reply? (settings : Settings) (identifier : Int) : Event α → Option (Reply α)
  | .arrived now text delivery =>
    ((settings.reply? text).filter (·.identifier == identifier)).map (⟨now, ·, delivery⟩)
  | _ => none

end Event

/-- The registered commands of a history, in their order. -/
def registrations (events : List (Event α)) : List Ticket := events.filterMap Event.registers?

/-- What happened from the registration of a command on. -/
def since (t : Ticket) (events : List (Event α)) : List (Event α) :=
  events.dropWhile fun e => e.registers? != some t

/-- The frames with a command's identifier since its registration. -/
def replies (settings : Settings) (t : Ticket) (events : List (Event α)) : List (Reply α) :=
  (since t events).filterMap (Event.reply? settings t.identifier)

/-- The first of them. -/
def firstReply? (settings : Settings) (t : Ticket) (events : List (Event α)) :
    Option (Reply α) := (replies settings t events).head?

variable {settings : Settings} {t : Ticket} {events : List (Event α)} {e : Event α}

theorem registrations_append : registrations (events ++ [e])
    = registrations events ++ e.registers?.toList := by
  rw [registrations, List.filterMap_append, registrations]
  cases h : e.registers? <;> simp [h]

theorem mem_registrations_append {u : Ticket} : u ∈ registrations (events ++ [e])
    ↔ u ∈ registrations events ∨ e.registers? = some u := by
  rw [registrations_append, List.mem_append, Option.mem_toList]

theorem since_eq_nil (h : t ∉ registrations events) : since t events = [] := by
  refine List.dropWhile_eq_nil_iff.mpr fun e he => ?_
  refine bne_iff_ne.mpr fun hr => h ?_
  exact List.mem_filterMap.mpr ⟨e, he, hr⟩

theorem since_ne_nil (h : t ∈ registrations events) : since t events ≠ [] := by
  intro hn
  obtain ⟨e, he, hr⟩ := List.mem_filterMap.mp h
  have hb := List.dropWhile_eq_nil_iff.mp hn e he
  rw [hr] at hb
  simp at hb

theorem since_append (h : t ∈ registrations events) :
    since t (events ++ [e]) = since t events ++ [e] := by
  have hne : (since t events).isEmpty = false := by simpa using since_ne_nil h
  unfold since at hne ⊢
  rw [List.dropWhile_append, hne]
  rfl

theorem replies_append (h : t ∈ registrations events) : replies settings t (events ++ [e])
    = replies settings t events ++ (e.reply? settings t.identifier).toList := by
  rw [replies, since_append h, List.filterMap_append, replies]
  cases hr : e.reply? settings t.identifier <;> simp [hr]

/-- A command that was not registered before has no reply yet. -/
theorem replies_append_of_notMem (h : t ∉ registrations events)
    (hr : e.reply? settings t.identifier = none) : replies settings t (events ++ [e]) = [] := by
  have hs : since t (events ++ [e]) = [] ∨ since t (events ++ [e]) = [e] := by
    have hn : ((events.dropWhile fun e => e.registers? != some t).isEmpty) = true := by
      rw [List.isEmpty_iff]
      exact since_eq_nil h
    unfold since
    rw [List.dropWhile_append, hn]
    simp only [if_true, List.dropWhile_cons, List.dropWhile_nil]
    split
    · exact Or.inl rfl
    · exact Or.inr rfl
  rcases hs with hs | hs
  · rw [replies, hs, List.filterMap_nil]
  · rw [replies, hs, List.filterMap_cons, hr, List.filterMap_nil]

theorem firstReply?_append_of_some {r : Reply α} (h : t ∈ registrations events)
    (hr : firstReply? settings t events = some r) :
    firstReply? settings t (events ++ [e]) = some r := by
  rw [firstReply?, replies_append h, List.head?_append]
  rw [firstReply?] at hr
  rw [hr, Option.some_or]

theorem firstReply?_append_of_none (h : t ∈ registrations events)
    (hr : firstReply? settings t events = none) :
    firstReply? settings t (events ++ [e]) = e.reply? settings t.identifier := by
  have hn : replies settings t events = [] := List.head?_eq_none_iff.mp hr
  rw [firstReply?, replies_append h, hn, List.nil_append]
  cases e.reply? settings t.identifier <;> rfl

end ServerWarden.Rcon
