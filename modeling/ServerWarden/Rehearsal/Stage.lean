/-
# The stage of a rehearsal

The surroundings of a control program as a value: the clock, the console's two ends, the processes,
the updates, the files, and what is to happen at its own time.  Each operation is what one request,
one frame or one action does.  Whatever is seen is recorded, after a change of the timer's phase if
there was one since the event before.
-/
import ServerWarden.Control.Keeper
import ServerWarden.Coordinator.Timer
import ServerWarden.Rcon.Client
import ServerWarden.Reason
import ServerWarden.Rehearsal.Event
import ServerWarden.Rehearsal.Script

namespace ServerWarden.Rehearsal

/-- A listener of the console, by the name that it is heard under. -/
structure Listener where
  name : String
  /-- The listener that it adds when it first hears something. -/
  adds : Option String
  deriving DecidableEq, Repr

/-- Where the identifiers of commands come from: a list first, and numbers in a row after it. -/
structure Identifiers where
  listed : List Int
  next : Int
  /-- Whether they stand for random ones, which are not shown. -/
  hidden : Bool
  deriving DecidableEq, Repr

def Identifiers.draw (i : Identifiers) : Int × Identifiers :=
  match i.listed with
  | id :: rest => (id, { i with listed := rest })
  | [] => (i.next, { i with next := i.next + 1 })

/-- A process on the stage. -/
structure Actor where
  part : ProcessPart
  /-- How often it is not seen running from now on. -/
  hidden : Nat
  /-- When it dies, if that is known, and with which code. -/
  death : Option (Instant × Option Int)
  deriving DecidableEq, Repr

namespace Actor

def isAlive (a : Actor) (now : Instant) : Bool :=
  match a.death with
  | none => true
  | some (time, _) => decide (now < time)

/-- Settles a death, unless an earlier one is settled. -/
def dieAt (a : Actor) (time : Instant) (code : Option Int) : Actor :=
  match a.death with
  | some (settled, _) => if settled < time then a else { a with death := some (time, code) }
  | none => { a with death := some (time, code) }

/-- Settles a death that is to come. -/
def dieAfter (a : Actor) (now : Instant) (d : Death) : Actor :=
  a.dieAt (now.add (.ofMillis d.after)) d.code

/-- A process that starts now. -/
def enter (part : ProcessPart) (now : Instant) : Actor :=
  let a : Actor := ⟨part, part.hidden, none⟩
  match part.ownDeath with
  | some d => a.dieAfter now d
  | none => a

end Actor

/-- The script of the updates. -/
structure UpdateScript where
  server : Script Bool
  framework : Script Bool
  /-- How long a check takes. -/
  checkTime : Duration
  /-- How long an install takes. -/
  installTime : Duration

/-- What happens at its own time. -/
inductive Cue where
  /-- A frame comes in. -/
  | reply (frame : String)
  | action (a : Action)

structure Stage where
  now : Instant
  /-- What was seen, the latest first. -/
  events : List Event
  /-- The timer's phase at the last event. -/
  seenPhase : TimerPhase
  coordinator : Coordinator
  /-- The timer, if it was started. -/
  timer : Option (TimerPlan × TimerPlace)
  console : Rcon.Client Nat
  listeners : Array Listener
  isOpen : Bool
  /-- Why frames cannot be queued, if they cannot. -/
  sendFailure : Option String
  identifiers : Identifiers
  /-- The answers to commands. -/
  replies : List (String × String)
  replyDelay : Duration
  /-- The answers to health queries. -/
  queryAnswers : Script (Option String)
  castings : Script Casting
  /-- The processes that were started, in order. -/
  actors : Array Actor
  updates : UpdateScript
  files : FileTree
  /-- What is to happen, in the order of the moments. -/
  cues : List (Instant × Cue)

namespace Stage

/-! ## 1. Events -/

/-- Records an event. -/
def record (s : Stage) (name : String) (details : List Detail) : Stage :=
  let time := s.now.millis
  let phase := s.coordinator.phase
  let before :=
    if phase = s.seenPhase then s.events
    else ⟨time, "phase", [.text phase.name]⟩ :: s.events
  { s with events := ⟨time, name, details⟩ :: before, seenPhase := phase }

def say (s : Stage) (level : Log.Level) (text : String) : Stage :=
  match lineDetails? level text with
  | some details => s.record "log" details
  | none => s

def sayAll (s : Stage) (lines : List Log.Line) : Stage :=
  lines.foldl (fun s l => s.say l.level l.text) s

/-- The events since the last look, in order. -/
def takeEvents (s : Stage) : List Event × Stage :=
  (s.events.reverse, { s with events := [] })

/-! ## 2. What is to come -/

/-- Puts a cue behind those that are not later. -/
def enqueue (time : Instant) (cue : Cue) : List (Instant × Cue) → List (Instant × Cue)
  | [] => [(time, cue)]
  | (t, c) :: rest =>
    if time < t then (time, cue) :: (t, c) :: rest else (t, c) :: enqueue time cue rest

def schedule (s : Stage) (time : Instant) (cue : Cue) : Stage :=
  { s with cues := enqueue time cue s.cues }

/-! ## 3. Processes -/

/-- Changes the process that was started last. -/
def updateLast (s : Stage) (f : Actor → Actor) : Stage :=
  { s with actors := s.actors.modify (s.actors.size - 1) f }

def update (s : Stage) (h : Handle) (f : Actor → Actor) : Stage :=
  { s with actors := s.actors.modify h.number f }

def spawn (s : Stage) (spec : LaunchSpec) : Except Fault Handle × Stage :=
  match s.castings.next? with
  | none => (.error (.process (.other "nothing to start")), s)
  | some (casting, castings) =>
    let s := { s with castings }
    match casting with
    | .fails why => (.error (.process (.other why)), s.record "spawn_failed" [])
    | .succeeds part =>
      let s := s.record "spawn" [.text spec.program, .number spec.args.length]
      (.ok ⟨s.actors.size⟩, { s with actors := s.actors.push (.enter part s.now) })

def isRunning (s : Stage) (h : Handle) : Bool × Stage :=
  match s.actors[h.number]? with
  | none => (false, s)
  | some a =>
    if a.hidden = 0 then (a.isAlive s.now, s)
    else (false, s.update h fun a => { a with hidden := a.hidden - 1 })

def canInterrupt (s : Stage) (h : Handle) : Bool :=
  (s.actors[h.number]?).any fun a => a.part.interruption ≠ .unsupported

def interrupt (s : Stage) (h : Handle) : Except Fault Unit × Stage :=
  let s := s.record "interrupt" []
  match (s.actors[h.number]?).map fun a : Actor => a.part.interruption with
  | some (.dies d) => (.ok (), s.update h (·.dieAfter s.now d))
  | some .refused => (.error (.process (.other "interrupt refused")), s)
  | _ => (.ok (), s)

def terminate (s : Stage) (h : Handle) : Except Fault Unit × Stage :=
  let s := s.record "terminate" []
  if (s.actors[h.number]?).any (·.part.isMortal) then
    (.ok (), s.update h (·.dieAt s.now none))
  else (.error (.process (.other "terminate refused")), s)

/-- The exit code of a process that is dead. -/
def exitCode (s : Stage) (h : Handle) : Option Int :=
  s.actors[h.number]?.bind fun a => if a.isAlive s.now then none else a.death.bind (·.2)

/-! ## 4. The console -/

/-- Lets a listener hear a frame. -/
def hear (s : Stage) (frame : String) (listener : Nat) : Stage :=
  match s.listeners[listener]? with
  | none => s
  | some l =>
    let s := s.record "heard" [.text l.name, .text frame]
    match l.adds with
    | none => s
    | some name =>
      let listeners := s.listeners.modify listener fun l => { l with adds := none }
      { s with
        listeners := listeners.push ⟨name, none⟩
        console := s.console.listen s.listeners.size }

/-- Adds a listener. -/
def listen (s : Stage) (l : Listener) : Stage :=
  { s with
    listeners := s.listeners.push l
    console := s.console.listen s.listeners.size }

/-- Takes in a frame. -/
def deliver (s : Stage) (frame : String) : Stage :=
  match s.console.dispatch frame with
  | (.malformed, console) => { s with console }.say .warn (Rcon.malformedMessage frame)
  | (.broadcast listeners, console) => listeners.foldl (·.hear frame) { s with console }
  | (.answered .., console) => { s with console }
  | (.unknown id, console) => { s with console }.say .warn (Rcon.unknownMessage id)

/-- The frame of an answer. -/
def replyFrame (identifier : Int) (body : String) : String :=
  String.ofList <|
    "\x7b\"Identifier\":".toList ++ (toString identifier).toList ++
      ",\"Message\":".toList ++ Json.quote body.toList ++ ",\"Type\":\"Generic\"\x7d".toList

/-- The answer to a command that does nothing else. -/
def tell (s : Stage) (command : String) : Option String × Stage :=
  match s.queryAnswers.next? with
  | some (answer, queryAnswers) =>
    if command = Keeper.queryCommand then (answer, { s with queryAnswers })
    else (s.replies.lookup command, s)
  | none => (s.replies.lookup command, s)

/-- What the server does on a command, with its answer if there is one. -/
def obey (s : Stage) (command : String) : Option String × Stage :=
  match s.actors.back? with
  | none => s.tell command
  | some a =>
    if command = Keeper.quitCommand then
      match a.part.quit with
      | some d => (a.part.quitAnswer, s.updateLast (·.dieAfter s.now d))
      | none => (a.part.quitAnswer, s)
    else s.tell command

/-- Queues the frame of a command, if that can be done, and lets the server act on it. -/
def transmit (s : Stage) (identifier : Int) (command : String) : Bool × Stage :=
  match s.sendFailure with
  | some why =>
    let fault : Fault := .transport (.other why)
    (false, (s.record "send_failed" []).say .warn (Rcon.sendFailedMessage command fault.message))
  | none =>
    let shown :=
      if s.identifiers.hidden then
        [Detail.flag (identifier = Rcon.broadcastIdentifier), .text command]
      else [.text (Rcon.encodeCommand identifier command)]
    let (answer, s) := (s.record "send" shown).obey command
    match answer with
    | none => (true, s)
    | some body =>
      let frame := replyFrame identifier body
      (true,
        if s.replyDelay.isZero then s.deliver frame
        else s.schedule (s.now.add s.replyDelay) (.reply frame))

/-- The identifiers that are tried at most: those listed, those in use, and two that are reserved.
-/
def identifierLimit (s : Stage) : Nat :=
  s.identifiers.listed.length + s.console.pending.length + 3

/-- A command that waits for its answer. -/
structure Call where
  command : String
  timeout : Duration
  ticket : Rcon.Ticket
  deadline : Instant

/-- Ends a command that leaves the table. -/
def leave (s : Stage) (sending : Rcon.Sending) : Stage :=
  { s with console := sending.leave s.console }

/-- Runs a waiting command.  Answers its result, if it has one. -/
def pollCall (s : Stage) (c : Call) : Option String × Stage :=
  match Rcon.Sending.await s.console s.now c.ticket c.deadline with
  | (.leaving ticket result, timedOut) =>
    let s :=
      if timedOut then s.say .warn (Rcon.timeoutMessage c.command ticket.identifier c.timeout)
      else s
    (some result, s.leave (.leaving ticket result))
  | _ => (none, s)

/-- The moment until which a time is waited for.  A time that no clock holds is thirty years. -/
def deadlineAfter (s : Stage) (d : Duration) : Instant :=
  (s.now.add? d).getD (s.now.add (.ofSecs (86400 * 365 * 30)))

/-- Sends a command and runs it as far as it gets. -/
def beginCall (s : Stage) (command : String) (timeout : Duration) : (String ⊕ Call) × Stage :=
  match s.console.open? Identifiers.draw s.identifierLimit s.identifiers s.isOpen timeout with
  | none | some (.unsent, _) => (.inl Rcon.Sending.noAnswer, s)
  | some (.unanswered, _) =>
    (.inl Rcon.Sending.noAnswer, (s.transmit Rcon.broadcastIdentifier command).2)
  | some (.registered ticket, identifiers, console) =>
    let (queued, s) := { s with identifiers, console }.transmit ticket.identifier command
    match Rcon.Sending.transmitted ticket (s.deadlineAfter timeout) queued with
    | .waiting ticket deadline =>
      let call : Call := ⟨command, timeout, ticket, deadline⟩
      match s.pollCall call with
      | (some result, s) => (.inl result, s)
      | (none, s) => (.inr call, s)
    | sending => (.inl Rcon.Sending.noAnswer, s.leave sending)

/-! ## 5. Actions -/

/-- Lets an action happen. -/
def act (s : Stage) (a : Action) : Stage :=
  let s := s.record "action" [.text a.name]
  match a with
  | .crash code => s.updateLast (·.dieAt s.now code)
  | .connect isOpen => { s with isOpen }
  | .failSends why => { s with sendFailure := why }
  | .answerQueries answers => { s with queryAnswers := answers }
  | .cast castings => { s with castings }
  | .deliver frame => s.deliver frame
  | .write path node => { s with files := s.files.place path node }
  | .requestStop => { s with coordinator := s.coordinator.requestStop }
  | .emit signals => { s with coordinator := (s.coordinator.emit signals).2 }

def perform (s : Stage) : Cue → Stage
  | .reply frame => s.deliver frame
  | .action a => s.act a

/-! ## 6. The start -/

/-- A stage on which nothing answers. -/
def empty : Stage where
  now := .start
  events := []
  seenPhase := .run
  coordinator := .initial
  timer := none
  console := .connect ⟨"", 0, "", false, 0⟩
  listeners := #[]
  isOpen := true
  sendFailure := none
  identifiers := ⟨[], 1001, false⟩
  replies := []
  replyDelay := .zero
  queryAnswers := []
  castings := []
  actors := #[]
  updates := ⟨[], [], .zero, .zero⟩
  files := .bare
  cues := []

/-- Connects the console. -/
def connect (s : Stage) (settings : Rcon.Settings) : Stage :=
  { s with console := .connect settings }.record "start" [.text settings.url]

end Stage
end ServerWarden.Rehearsal
