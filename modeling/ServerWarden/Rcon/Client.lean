/-
# Matching answers to commands

The client keeps a table of the commands that wait for an answer, by identifier.  An incoming frame
goes to the listeners if it is an announcement, and otherwise to the command of its identifier,
which leaves the table.  An identifier may be used again as soon as it has left the table, even
while the command before has not yet run on; so each entry has a token, and a command that ends
takes out the entry only if the token is its own.

A command goes through `Sending`: it is registered, its frame is queued, it waits, and it leaves.
Each of these is one step, and other commands and frames may come in between.
-/
import ServerWarden.Rcon.Frame
import ServerWarden.Time.Duration

namespace ServerWarden.Rcon

/-- An entry of the table: which command it belongs to, and where its answer goes. -/
structure Pending where
  token : UInt64
  slot : Nat
  deriving DecidableEq, Repr

/-- What a registered command holds. -/
structure Ticket where
  identifier : Int
  token : UInt64
  slot : Nat
  deriving DecidableEq, Repr

/-- The state of a client whose listeners are named by `α`. -/
structure Client (α : Type) where
  settings : Settings
  /-- The commands that wait for an answer, by identifier. -/
  pending : List (Int × Pending)
  /-- The listeners, the oldest first. -/
  listeners : List α
  nextToken : UInt64
  nextSlot : Nat
  /-- The answers that have come and not been fetched, by slot. -/
  answers : List (Nat × String)

/-- What became of an incoming frame. -/
inductive Delivery (α : Type) where
  /-- It could not be read. -/
  | malformed
  /-- It goes to these listeners, in this order. -/
  | broadcast (listeners : List α)
  /-- It answers the command of this entry. -/
  | answered (identifier : Int) (entry : Pending)
  /-- No command waits for it. -/
  | unknown (identifier : Int)

/-- How a command begins. -/
inductive Opening where
  /-- There is no connection to send it over. -/
  | unsent
  /-- It is sent, and no answer is waited for. -/
  | unanswered
  | registered (ticket : Ticket)
  deriving DecidableEq, Repr

/-- What a waiting command finds. -/
inductive Receipt where
  | answer (text : String)
  /-- No answer can come any more. -/
  | lost
  | waiting
  deriving DecidableEq, Repr

namespace Client

variable {α : Type}

def connect (settings : Settings) : Client α := ⟨settings, [], [], 0, 0, []⟩

/-- Adds a listener after the others. -/
def listen (c : Client α) (listener : α) : Client α :=
  { c with listeners := c.listeners ++ [listener] }

def isPending (c : Client α) (identifier : Int) : Bool :=
  (c.pending.lookup identifier).isSome

/-- Whether a new command may use an identifier. -/
def isUsable (c : Client α) (identifier : Int) : Bool :=
  identifier != broadcastIdentifier && identifier != c.settings.chatIdentifier &&
    !c.isPending identifier

/-- Registers a command under an identifier, if it may be used. -/
def register? (c : Client α) (identifier : Int) : Option (Ticket × Client α) :=
  if c.isUsable identifier then
    some (⟨identifier, c.nextToken, c.nextSlot⟩,
      { c with
        pending := (identifier, ⟨c.nextToken, c.nextSlot⟩) :: c.pending
        nextToken := c.nextToken + 1
        nextSlot := c.nextSlot + 1 })
  else none

/-- Registers a command under the first identifier of a source that may be used; `fuel` identifiers
are tried. -/
def registerFrom? {σ : Type} (draw : σ → Int × σ) (c : Client α) :
    Nat → σ → Option (Ticket × σ × Client α)
  | 0, _ => none
  | fuel + 1, source =>
    match c.register? (draw source).1 with
    | some (ticket, c) => some (ticket, (draw source).2, c)
    | none => c.registerFrom? draw fuel (draw source).2

/-- Begins a command.  Only one that is sent and waits for an answer is registered. -/
def open? {σ : Type} (draw : σ → Int × σ) (c : Client α) (fuel : Nat) (source : σ)
    (isOpen : Bool) (timeout : Duration) : Option (Opening × σ × Client α) :=
  if !isOpen then some (.unsent, source, c)
  else if timeout.isZero then some (.unanswered, source, c)
  else (c.registerFrom? draw fuel source).map fun r => (.registered r.1, r.2)

/-- Takes a command's own entry out of the table, and what has come for it. -/
def release (c : Client α) (t : Ticket) : Client α :=
  { c with
    pending := c.pending.filter fun e => !(e.1 == t.identifier && e.2.token == t.token)
    answers := c.answers.filter fun e => e.1 != t.slot }

/-- Takes in a frame. -/
def dispatch (c : Client α) (text : String) : Delivery α × Client α :=
  match Frame.read? text with
  | none => (.malformed, c)
  | some f =>
    if f.isBroadcast c.settings.chatIdentifier then (.broadcast c.listeners, c)
    else
      match c.pending.lookup f.identifier with
      | none => (.unknown f.identifier, c)
      | some p =>
        (.answered f.identifier p,
          { c with
            pending := c.pending.filter fun e => e.1 != f.identifier
            answers := (p.slot, f.message) :: c.answers })

/-- What has come for a command. -/
def receive (c : Client α) (t : Ticket) : Receipt :=
  match c.answers.lookup t.slot with
  | some text => .answer text
  | none => if c.pending.any fun e => e.2.slot == t.slot then .waiting else .lost

end Client

/-- Where a command stands. -/
inductive Sending where
  /-- It is registered, and its frame is to be queued. -/
  | registered (ticket : Ticket)
  /-- Its frame is queued, and it waits until the deadline. -/
  | waiting (ticket : Ticket) (deadline : Instant)
  /-- Its result is settled, and it is about to leave the table. -/
  | leaving (ticket : Ticket) (result : String)
  | finished (result : String)
  deriving DecidableEq, Repr

namespace Sending

/-- The result of a command without a usable answer. -/
def noAnswer : String := ""

/-- A registered command after its frame was queued, or could not be. -/
def transmitted (ticket : Ticket) (deadline : Instant) (queued : Bool) : Sending :=
  if queued then .waiting ticket deadline else .leaving ticket noAnswer

/-- Runs a waiting command.  It looks at its answer first and at its deadline second; the flag tells
whether the deadline ended it. -/
def await {α : Type} (c : Client α) (now : Instant) (ticket : Ticket) (deadline : Instant) :
    Sending × Bool :=
  match c.receive ticket with
  | .answer text => (.leaving ticket text, false)
  | .lost => (.leaving ticket noAnswer, false)
  | .waiting =>
    if deadline.wake ≤ now then (.leaving ticket noAnswer, true)
    else (.waiting ticket deadline, false)

/-- Takes a command that leaves, or is given up, out of the table. -/
def leave {α : Type} (c : Client α) : Sending → Client α
  | .registered t | .waiting t _ | .leaving t _ => c.release t
  | .finished _ => c

end Sending

/-! ## Messages -/

def malformedMessage (text : String) : String :=
  s!"Dropping malformed RCON message (it is not a console frame): {text}"

def unknownMessage (identifier : Int) : String :=
  s!"Dropping RCON response with unknown identifier {identifier}"

def timeoutMessage (command : String) (identifier : Int) (timeout : Duration) : String :=
  s!"RCON command '{command}' (identifier {identifier}) timed out after {timeout.text}"

def sendFailedMessage (command : String) (why : String) : String :=
  s!"Failed to send RCON command '{command}': {why}"

def connectionFailedMessage (s : Settings) (why : String) : String :=
  s!"RCON connection to {s.endpoint} failed: {why}"

end ServerWarden.Rcon
