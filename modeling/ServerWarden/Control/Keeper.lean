/-
# Starting and stopping the server

The keeper starts the server and brings it down.  A start waits until the new process is seen
running, and ends it if that takes too long.  A stop holds back while players are connected, then
asks the server to quit, then interrupts it, then ends it, each only if the server still runs after
the step before had its full time.  The process that is kept is passed along as a value: nothing
while there is none.
-/
import ServerWarden.Announcement
import ServerWarden.Control.Program
import ServerWarden.Health

namespace ServerWarden

/-- How often, and how far apart, a process is looked at. -/
structure PollSchedule where
  interval : Duration
  attempts : Nat
  deriving DecidableEq, Repr

/-- What a keeper goes by. -/
structure Keeper where
  launch : LaunchSpec
  /-- How long a stop is held back while players are connected. -/
  shutdownDelay : Duration
  startPoll : PollSchedule
  stopPoll : PollSchedule

namespace Keeper

def defaultStartPoll : PollSchedule := ⟨.ofSecs 2, 10⟩

def defaultStopPoll : PollSchedule := ⟨.ofSecs 1, 10⟩

/-- The console command for a health report. -/
def queryCommand : String := "serverinfo"

def quitCommand : String := "quit"

/-- How long an answer to a command is waited for. -/
def commandTimeout : Duration := .ofSecs 10

def info (text : String) : Program Unit := .say .info .server text

def warn (text : String) : Program Unit := .say .warn .server text

def error (text : String) : Program Unit := .say .error .server text

/-- Whether the process that is kept runs. -/
def isRunning (held : Option Handle) : Program Bool :=
  match held with
  | none => pure false
  | some h => .request (.isRunning h)

/-- Gives up the process that is kept. -/
def release (held : Option Handle) : Program Unit :=
  match held with
  | none => pure ()
  | some h => .request (.release h)

/-! ## 1. Starting -/

/-- Waits before another look, unless none is left. -/
def pause (interval : Duration) (attempts : Nat) : Program Unit :=
  if attempts = 0 then pure () else .request (.sleep interval)

/-- Looks at a new process until it runs, at most the given number of times. -/
def awaitStart (h : Handle) (interval : Duration) : Nat → Program Bool
  | 0 => pure false
  | attempts + 1 => do
    if ← .request (.isRunning h) then return true
    else
      pause interval attempts
      awaitStart h interval attempts

/-- Says that a process could not be ended, if so. -/
def noteCleanUp : Except Fault Unit → Program Unit
  | .ok () => pure ()
  | .error e => warn s!"Failed to clean up server process: {e.message}"

/-- Ends a process that never came up. -/
def discard (h : Handle) : Program Unit := do
  noteCleanUp (← .request (.terminate h))
  .request (.release h)

/-- Starts the server unless it runs already.  Answers whether it runs, and the process that is kept
now. -/
def start (k : Keeper) (held : Option Handle) : Program (Bool × Option Handle) := do
  if ← isRunning held then return (true, held)
  else
    let args := " ".intercalate k.launch.args
    info s!"Starting server: {k.launch.program} {args}"
    match ← .request (.spawn k.launch) with
    | .error e =>
      error s!"Failed to start server: {e.message}"
      return (false, held)
    | .ok h =>
      if ← awaitStart h k.startPoll.interval k.startPoll.attempts then
        let id ← .request (.processId h)
        info s!"Server started with pid {id}"
        release held
        return (true, some h)
      else
        error s!"Server did not reach the running state after {k.startPoll.attempts} attempts"
        discard h
        return (false, held)

/-! ## 2. Asking the server -/

/-- Asks the server for a health report. -/
def query (held : Option Handle) : Program (Option Health) := do
  if ← isRunning held then
    let answer ← .request (.command queryCommand commandTimeout)
    return Health.read? answer
  else return none

/-! ## 3. Stopping -/

/-- One round of holding a shutdown back: as long as players are connected and time is left, tells
them and waits for the next announcement.  A right result ends the rounds. -/
def holdBackRound (held : Option Handle) (reason : String) (deadline : Instant) :
    Program (Unit ⊕ Unit) := do
  let now ← .request .clock
  if !decide (now < deadline) then return .inr ()
  else if !(← isRunning held) then return .inr ()
  else
    match ← query held with
    | none =>
      warn "No usable server info over RCON; ending shutdown delay early"
      return .inr ()
    | some report =>
      if report.players = 0 then
        info "No players connected; ending shutdown delay early"
        return .inr ()
      else
        let remaining := deadline.since (← .request .clock)
        if remaining.isZero then return .inr ()
        else
          let _ ← .request (.command (Announcement.command remaining reason) .zero)
          .request (.sleep (Announcement.untilNext remaining))
          return .inl ()

/-- Holds a shutdown back while players are connected. -/
def holdBack (k : Keeper) (held : Option Handle) (reason : String) : Program Unit := do
  if k.shutdownDelay.isZero then return ()
  else if !(← .request .isConnected) then
    warn "RCON is not connected; skipping shutdown delay"
  else
    info s!"Delaying shutdown by up to {k.shutdownDelay.text}"
    let deadline ← .request (.deadline k.shutdownDelay)
    .loop (fun () => holdBackRound held reason deadline) ()

/-- Waits for the process to end.  Answers whether it did. -/
def awaitExit (held : Option Handle) (interval : Duration) : Nat → Program Bool
  | 0 => do return !(← isRunning held)
  | attempts + 1 => do
    if !(← isRunning held) then return true
    else
      .request (.sleep interval)
      awaitExit held interval attempts

/-- Asks the server to quit, if it runs and the console is connected. -/
def askToQuit (k : Keeper) (h : Handle) : Program Unit := do
  if ← .request (.isRunning h) then
    if ← .request .isConnected then
      info "Sending RCON quit command"
      let _ ← .request (.command quitCommand commandTimeout)
      if ← awaitExit (some h) k.stopPoll.interval k.stopPoll.attempts then
        info "Server exited after RCON quit"
    else warn "RCON is not connected; skipping quit command"

/-- Interrupts the server, if it runs and can be interrupted. -/
def interrupt (k : Keeper) (h : Handle) : Program Unit := do
  if ← .request (.isRunning h) then
    if ← .request (.canInterrupt h) then
      warn "Server still running; sending interrupt signal"
      match ← .request (.interrupt h) with
      | .ok () =>
        if ← awaitExit (some h) k.stopPoll.interval k.stopPoll.attempts then
          info "Server exited after interrupt signal"
      | .error e => warn s!"Failed to interrupt server: {e.message}"

/-- Ends the server if it still runs. -/
def terminate (h : Handle) : Program Unit := do
  if ← .request (.isRunning h) then
    warn "Server still running; forcing termination"
    match ← .request (.terminate h) with
    | .ok () => pure ()
    | .error e =>
      let id ← .request (.processId h)
      error s!"Failed to terminate server process {id}: {e.message}"

/-- Says how the server ended. -/
def reportExit (h : Handle) : Program Unit := do
  match ← .request (.exitCode h) with
  | some 0 | none => info "Server stopped"
  | some code => warn s!"Server exited with non-zero exit code {code}"

/-- Brings the server down.  No process is kept afterwards. -/
def stop (k : Keeper) (held : Option Handle) (reason : String) : Program Unit := do
  match held with
  | none => return ()
  | some h =>
    if !(← .request (.isRunning h)) then .request (.release h)
    else
      info s!"Stopping server for reason: {reason}"
      holdBack k held reason
      askToQuit k h
      interrupt k h
      terminate h
      reportExit h
      .request (.release h)

end Keeper
end ServerWarden
