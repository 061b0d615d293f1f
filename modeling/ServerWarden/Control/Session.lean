/-
# A supervised session

The supervisor installs pending updates, starts the server and the timer, and then follows its
signals: a stop request first, then an update check, then a health check.  Whatever takes the server
down pauses the timer until the server is up again.  A session ends with a stop request, or when the
server cannot be brought up again; then the timer is stopped and the server brought down.
-/
import ServerWarden.Control.Keeper
import ServerWarden.Control.Maintenance

namespace ServerWarden

/-- How a run ends. -/
inductive ExitCode where
  | success
  | invalidArgument
  | handlerInstall
  | startFailure
  | updateRestartFailure
  | unexpectedStopRestartFailure
  | unhandledError
  | threadFailure
  deriving DecidableEq, Repr

namespace ExitCode

/-- The number that the operating system gets. -/
def code : ExitCode → Nat
  | .success => 0
  | .invalidArgument => 1
  | .handlerInstall => 2
  | .startFailure => 3
  | .updateRestartFailure => 4
  | .unexpectedStopRestartFailure => 5
  | .unhandledError => 6
  | .threadFailure => 7

def name : ExitCode → String
  | .success => "Success"
  | .invalidArgument => "InvalidArgument"
  | .handlerInstall => "HandlerInstall"
  | .startFailure => "StartFailure"
  | .updateRestartFailure => "UpdateRestartFailure"
  | .unexpectedStopRestartFailure => "UnexpectedStopRestartFailure"
  | .unhandledError => "UnhandledError"
  | .threadFailure => "ThreadFailure"

/-- All exit codes, in the order of their numbers. -/
def all : List ExitCode :=
  [.success, .invalidArgument, .handlerInstall, .startFailure, .updateRestartFailure,
    .unexpectedStopRestartFailure, .unhandledError, .threadFailure]

end ExitCode

/-- What a supervisor goes by. -/
structure Supervisor where
  settings : SupervisorSettings
  keeper : Keeper

namespace Supervisor

def stopReason : String := "Server manager stopped"

def teardownReason : String := "Server manager shutting down"

/-- What a supervisor keeps between two wakes. -/
structure Memory where
  held : Option Handle
  /-- The protocol that the server spoke last. -/
  protocol : Option String

/-- A step of a session: its memory afterwards, and the exit code if the session is over. -/
abbrev Step := Memory × Option ExitCode

def info (text : String) : Program Unit := .say .info .supervisor text

def warn (text : String) : Program Unit := .say .warn .supervisor text

def error (text : String) : Program Unit := .say .error .supervisor text

def check (s : Supervisor) (policy : UpdatePolicy) : Program UpdatePlan :=
  Maintenance.check policy s.settings.frameworkOnServerUpdate

def installAll (s : Supervisor) (plan : UpdatePlan) : Program Unit :=
  Maintenance.installAll plan s.settings.serverRetry s.settings.frameworkRetry

/-- Installs a plan, if there is anything in it. -/
def installPending (s : Supervisor) (plan : UpdatePlan) : Program Unit := do
  if plan.any then s.installAll plan

/-! ## 1. What a wake leads to -/

/-- Ends the session on request. -/
def shutDown (s : Supervisor) (m : Memory) (reason : String) : Program Step := do
  info "Server manager stop requested; stopping server"
  .request (.setPhase .stop)
  s.keeper.stop m.held reason
  return ({ m with held := none }, some .success)

/-- Brings the server down, installs a plan, and starts the server again. -/
def installThenRestart (s : Supervisor) (m : Memory) (plan : UpdatePlan) : Program Step := do
  .request (.setPhase .pause)
  let description := plan.describe s.settings.frameworkName
  info s!"Update(s) required: {description}; stopping server"
  s.keeper.stop m.held s!"Installing update(s): {description}"
  s.installAll plan
  info "Update(s) complete; starting server"
  let (up, held) ← s.keeper.start none
  if up then
    .request (.setPhase .run)
    return ({ m with held }, none)
  else
    error "Server failed to start after updating"
    return ({ m with held }, some .updateRestartFailure)

/-- Starts a server again that went down by itself, if that is wanted. -/
def restartCrashed (s : Supervisor) (m : Memory) : Program Step := do
  if !s.settings.autoRestart then
    .request (.setPhase .stop)
    error "Server stopped unexpectedly"
    return (m, some .unexpectedStopRestartFailure)
  else
    .request (.setPhase .pause)
    warn "Server stopped unexpectedly"
    s.keeper.stop m.held "Server stopped unexpectedly"
    let plan ← s.check s.settings.onRelaunch
    s.installPending plan
    info "Relaunching server"
    let (up, held) ← s.keeper.start none
    if up then
      .request (.setPhase .run)
      return ({ m with held }, none)
    else
      error "Server failed to relaunch"
      return ({ m with held }, some .unexpectedStopRestartFailure)

/-- Says that the protocol has changed, if so. -/
def noteProtocol (before : Option String) (now : String) : Program Unit := do
  match before with
  | some previous =>
    if previous ≠ now then
      warn s!"Server protocol changed from {previous} to {now}"
  | none => pure ()

/-- Takes note of a health report. -/
def noteHealth (m : Memory) (report : Health) : Program Memory := do
  info s!"Got server info via RCON: players={report.players}, protocol={report.protocol}"
  noteProtocol m.protocol report.protocol
  return { m with protocol := some report.protocol }

/-- Looks at the server. -/
def checkHealth (s : Supervisor) (m : Memory) : Program Step := do
  if ← Keeper.isRunning m.held then
    match ← Keeper.query m.held with
    | some report => return (← noteHealth m report, none)
    | none => return (m, none)
  else s.restartCrashed m

/-- Looks for updates, and installs them if there are any. -/
def checkUpdates (s : Supervisor) (m : Memory) : Program Step := do
  let plan ← s.check s.settings.onInterval
  if plan.any then s.installThenRestart m plan else return (m, none)

/-! ## 2. The session -/

/-- Follows the signal for an update check, if it is there. -/
def followUpdates (s : Supervisor) (m : Memory) (signals : Signals) : Program Step :=
  if signals.updateCheck then s.checkUpdates m else pure (m, none)

/-- Follows the signal for a health check, if it is there. -/
def followHealth (s : Supervisor) (m : Memory) (signals : Signals) : Program Step :=
  if signals.healthCheck then s.checkHealth m else pure (m, none)

/-- Follows the signals of one wake. -/
def handleWake (s : Supervisor) (m : Memory) (signals : Signals) : Program Step := do
  if signals.stop then
    let reason ← .request (.takeReason s.settings.reasonPath stopReason)
    s.shutDown m reason
  else
    let (m, exit) ← s.followUpdates m signals
    match exit with
    | some code => return (m, some code)
    | none => s.followHealth m signals

/-- One turn of the session: waits for signals and follows them. -/
def turn (s : Supervisor) (m : Memory) : Program (Memory ⊕ (Memory × ExitCode)) := do
  let signals ← .request .waitForSignals
  let (m, exit) ← s.handleWake m signals
  match exit with
  | none => return .inl m
  | some code => return .inr (m, code)

/-- Waits for the end of the timer.  Answers the exit code, which tells if the timer failed. -/
def joinTimer (code : ExitCode) : Program ExitCode := do
  if ← .request .joinTimer then return code
  else
    error "Scheduler task failed: the clock cannot hold its next target"
    return if code = .success then .threadFailure else code

/-- Brings the server down if it runs.  Answers the process that is kept now. -/
def stopRunning (s : Supervisor) (held : Option Handle) (reason : String) :
    Program (Option Handle) := do
  if ← Keeper.isRunning held then
    info "Stopping server"
    s.keeper.stop held reason
    return none
  else return held

/-- Ends the timer and the server. -/
def tearDown (s : Supervisor) (m : Memory) (code : ExitCode) : Program ExitCode := do
  info "Exited main loop; beginning shutdown process"
  .request (.setPhase .stop)
  let code ← joinTimer code
  let reason ← .request (.takeReason s.settings.reasonPath teardownReason)
  let held ← s.stopRunning m.held reason
  info s!"Supervisor exiting with {code.name}"
  Keeper.release held
  return code

/-- What comes after the first start: the timer and the turns, if the server is up. -/
def supervise (s : Supervisor) (up : Bool) (held : Option Handle) : Program ExitCode := do
  if up then
    info "Starting scheduler"
    .request (.startTimer s.settings.healthInterval s.settings.updateInterval)
    info "Starting main event loop"
    let (m, code) ← .loop s.turn ⟨held, none⟩
    s.tearDown m code
  else
    error "Server failed to start"
    return .startFailure

/-- A whole session. -/
def run (s : Supervisor) : Program ExitCode := do
  let plan ← s.check s.settings.onStartup
  s.installPending plan
  info "Starting server"
  let (up, held) ← s.keeper.start none
  let code ← s.supervise up held
  .request .hangUp
  return code

end Supervisor
end ServerWarden
