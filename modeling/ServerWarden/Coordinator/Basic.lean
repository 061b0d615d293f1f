/-
# What the timer and the supervisor share

The phase of the timer, and the signals that wait for the supervisor.  Signals of the same kind that
come in before the supervisor looks are one.  A stop request stays once it is made, and the phase
that ends the timer is never left.

Each operation is two steps, as other tasks may run between them: a change of the shared state, and
the notification of the task that waits for it.  `setPhase`, `requestStop` and `emit` are both steps
together.
-/
import ServerWarden.Coordinator.Notify

namespace ServerWarden

/-- What the timer does. -/
inductive TimerPhase where
  | run
  | pause
  /-- The last phase. -/
  | stop
  deriving DecidableEq, Repr

/-- What a wake tells the supervisor. -/
structure Signals where
  stop : Bool
  healthCheck : Bool
  updateCheck : Bool
  deriving DecidableEq, Repr

namespace Signals

def none : Signals := ⟨false, false, false⟩

def any (s : Signals) : Bool := s.stop || s.healthCheck || s.updateCheck

end Signals

structure Coordinator where
  phase : TimerPhase
  /-- Whether the timer has not yet taken notice of the phase. -/
  phaseChanged : Bool
  signals : Signals
  timerWake : Notify
  supervisorWake : Notify
  deriving DecidableEq, Repr

namespace Coordinator

def initial : Coordinator := ⟨.run, false, .none, .empty, .empty⟩

/-! ## 1. The shared state -/

/-- Changes the phase.  Nothing happens if it is the phase already or the last phase was reached. -/
def changePhase? (c : Coordinator) (p : TimerPhase) : Option Coordinator :=
  if c.phase = .stop ∨ c.phase = p then none
  else some { c with phase := p, phaseChanged := true }

def markStop (c : Coordinator) : Coordinator :=
  { c with signals := { c.signals with stop := true } }

/-- Adds the checks of some signals, if the timer runs. -/
def addSignals? (c : Coordinator) (s : Signals) : Option Coordinator :=
  if c.phase = .run then
    some { c with signals := { c.signals with
      healthCheck := c.signals.healthCheck || s.healthCheck
      updateCheck := c.signals.updateCheck || s.updateCheck } }
  else none

/-- Takes the signals, if there are any.  A stop request is left in place. -/
def takeSignals? (c : Coordinator) : Option (Signals × Coordinator) :=
  if c.signals.any then
    some (c.signals,
      { c with signals := { c.signals with healthCheck := false, updateCheck := false } })
  else none

/-- Takes notice of the phase, if it has changed. -/
def takePhaseChange? (c : Coordinator) : Option (TimerPhase × Coordinator) :=
  if c.phaseChanged then some (c.phase, { c with phaseChanged := false }) else none

/-! ## 2. Notifications -/

def wakeTimer (c : Coordinator) : Coordinator :=
  { c with timerWake := c.timerWake.notifyOne }

def wakeSupervisor (c : Coordinator) : Coordinator :=
  { c with supervisorWake := c.supervisorWake.notifyOne }

/-! ## 3. Operations -/

def setPhase (c : Coordinator) (p : TimerPhase) : Coordinator :=
  match c.changePhase? p with
  | some c => c.wakeTimer
  | none => c

def requestStop (c : Coordinator) : Coordinator := c.markStop.wakeSupervisor

/-- Raises checks.  Answers whether the timer was running. -/
def emit (c : Coordinator) (s : Signals) : Bool × Coordinator :=
  match c.addSignals? s with
  | some c => (true, c.wakeSupervisor)
  | none => (false, c)

/-! ## 4. Waiting for signals -/

/-- Where a task that waits for signals stands. -/
inductive WaitPlace where
  /-- It has not looked yet. -/
  | fresh
  /-- It waits for a notification. -/
  | parked
  /-- It has its signals. -/
  | finished
  deriving DecidableEq, Repr

/-- Waits for a notification, unless a permit is there to be used up. -/
def park (c : Coordinator) (w : WaiterId) : Bool × Coordinator :=
  match c.supervisorWake.usePermit? with
  | some n => (false, { c with supervisorWake := n })
  | none => (true, { c with supervisorWake := c.supervisorWake.enroll w })

/-- Looks for signals, and waits for a notification if there are none. -/
def lookOnce (c : Coordinator) (w : WaiterId) : Option Signals × Bool × Coordinator :=
  match c.takeSignals? with
  | some (s, c) => (some s, false, c)
  | none =>
    let (parked, c) := c.park w
    (none, parked, c)

/-- Looks for signals until it finds some or waits.  A permit is good for one more look. -/
def look (c : Coordinator) (w : WaiterId) : Option Signals × Coordinator :=
  match c.lookOnce w with
  | (none, false, c) =>
    let (s, _, c) := c.lookOnce w
    (s, c)
  | (s, _, c) => (s, c)

/-- Runs a task that waits for signals, as far as it gets. -/
def pollWait (c : Coordinator) (w : WaiterId) :
    WaitPlace → Option Signals × WaitPlace × Coordinator
  | .finished => (none, .finished, c)
  | .fresh => settle (c.look w)
  | .parked =>
    if c.supervisorWake.isChosen w then
      settle ({ c with supervisorWake := c.supervisorWake.resume w }.look w)
    else (none, .parked, c)
where
  settle : Option Signals × Coordinator → Option Signals × WaitPlace × Coordinator
    | (some s, c) => (some s, .finished, c)
    | (none, c) => (none, .parked, c)

/-- A task that waits for signals gives up. -/
def abandonWait (c : Coordinator) (w : WaiterId) : WaitPlace → Coordinator
  | .parked => { c with supervisorWake := c.supervisorWake.abandon w }
  | _ => c

end Coordinator
end ServerWarden
