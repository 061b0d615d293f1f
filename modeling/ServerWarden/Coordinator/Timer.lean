/-
# The timer

Raises a health check and, if wanted, an update check, each at its own interval.  The timer waits
for its earliest target or for a change of phase.  A change of phase sets both targets anew, so that
nothing stale fires after a pause; the last phase ends the timer.  A target that was missed by more
than its interval moves on from the present moment, so a late timer neither bursts nor drifts.

The steps are apart from each other, as other tasks may run between them: `choosing` leads to
`parked`, from there a notification leads to `notified` and a due target to `due`, and both lead
back.  The way back from `due` looks at the phase (`counting`), works out the checks (`raising`),
adds them to the signals (`ringing`) and notifies the supervisor.
-/
import ServerWarden.Coordinator.Basic
import ServerWarden.Time.Duration

namespace ServerWarden

/-- The moments at which checks are due. -/
structure Targets where
  health : Instant
  update : Option Instant
  deriving DecidableEq, Repr

/-- What a timer is told. -/
structure TimerPlan where
  healthInterval : Duration
  /-- The time between update checks, if there are any. -/
  updateInterval : Option Duration
  deriving DecidableEq, Repr

namespace TimerPlan

/-- A plan; no time between update checks means none. -/
def of (health update : Duration) : TimerPlan :=
  ⟨health, if update.isZero then none else some update⟩

/-- Targets one interval from now, if a clock can hold them. -/
def arm? (p : TimerPlan) (now : Instant) : Option Targets := do
  let health ← now.add? p.healthInterval
  match p.updateInterval with
  | none => return ⟨health, none⟩
  | some interval => return ⟨health, some (← now.add? interval)⟩

end TimerPlan

/-- A target one interval later, or one interval from now if that is past. -/
def advance? (target : Instant) (interval : Duration) (now : Instant) : Option Instant := do
  let next ← target.add? interval
  if next ≤ now then now.add? interval else return next

namespace Targets

/-- The moment of the next check. -/
def earliest (t : Targets) : Instant :=
  match t.update with
  | some update => t.health.earliest update
  | none => t.health

/-- The checks that are due, and the targets after them. -/
def fire? (p : TimerPlan) (t : Targets) (now : Instant) : Option (Signals × Targets) := do
  let healthDue := decide (t.health ≤ now)
  let health ← if healthDue then advance? t.health p.healthInterval now else some t.health
  match t.update, p.updateInterval with
  | some update, some interval =>
    if update ≤ now then
      let next ← advance? update interval now
      return (⟨false, healthDue, true⟩, ⟨health, some next⟩)
    else return (⟨false, healthDue, false⟩, ⟨health, some update⟩)
  | update, _ => return (⟨false, healthDue, false⟩, ⟨health, update⟩)

end Targets

/-- Where a timer stands. -/
inductive TimerPlace where
  /-- It is about to wait. -/
  | choosing (targets : Targets)
  /-- It waits for a notification or for its earliest target. -/
  | parked (targets : Targets)
  /-- It was notified and is about to look at the phase. -/
  | notified (targets : Targets)
  /-- A target is due, and it is about to look at the phase. -/
  | due (targets : Targets)
  /-- The phase was not the last one, and it is about to work out the checks. -/
  | counting (targets : Targets)
  /-- It is about to raise checks. -/
  | raising (checks : Signals) (targets : Targets)
  /-- It raised checks and is about to notify the supervisor. -/
  | ringing (targets : Targets)
  /-- It has ended. -/
  | finished
  /-- A target was beyond what a clock can hold. -/
  | failed
  deriving DecidableEq, Repr

namespace TimerPlace

/-- A timer that starts now. -/
def start (p : TimerPlan) (now : Instant) : TimerPlace :=
  match p.arm? now with
  | some targets => .choosing targets
  | none => .failed

def hasEnded : TimerPlace → Bool
  | .finished | .failed => true
  | _ => false

/-- Waits, unless a permit is there to be used up. -/
def choose (targets : Targets) (c : Coordinator) (w : WaiterId) : TimerPlace × Coordinator :=
  match c.timerWake.usePermit? with
  | some n => (.notified targets, { c with timerWake := n })
  | none => (.parked targets, { c with timerWake := c.timerWake.enroll w })

/-- Takes notice of the phase after a notification. -/
def notice (p : TimerPlan) (targets : Targets) (now : Instant) (c : Coordinator) :
    TimerPlace × Coordinator :=
  match c.takePhaseChange? with
  | none => (.choosing targets, c)
  | some (.stop, c) => (.finished, c)
  | some (_, c) => (start p now, c)

/-- Goes on unless the phase is the last one. -/
def goOn (targets : Targets) (c : Coordinator) : TimerPlace :=
  if c.phase = .stop then .finished else .counting targets

/-- Works out the checks that are due. -/
def count (p : TimerPlan) (targets : Targets) (now : Instant) : TimerPlace :=
  match targets.fire? p now with
  | none => .failed
  | some (checks, targets) => if checks.any then .raising checks targets else .choosing targets

/-- Raises checks, if the phase is that in which the timer runs. -/
def raise (checks : Signals) (targets : Targets) (c : Coordinator) : TimerPlace × Coordinator :=
  match c.addSignals? checks with
  | some c => (.ringing targets, c)
  | none => (.choosing targets, c)

/-- One step of the timer, if there is one at this moment.  `w` is its number as a waiter. -/
def step? (p : TimerPlan) (w : WaiterId) (now : Instant) (c : Coordinator) :
    TimerPlace → Option (TimerPlace × Coordinator)
  | .choosing targets => some (choose targets c w)
  | .parked targets =>
    if c.timerWake.isChosen w then
      some (.notified targets, { c with timerWake := c.timerWake.resume w })
    else if targets.earliest.wake ≤ now then
      some (.due targets, { c with timerWake := c.timerWake.abandon w })
    else none
  | .notified targets => some (notice p targets now c)
  | .due targets => some (goOn targets c, c)
  | .counting targets => some (count p targets now, c)
  | .raising checks targets => some (raise checks targets c)
  | .ringing targets => some (.choosing targets, c.wakeSupervisor)
  | .finished | .failed => none

/-- The moment at which a waiting timer goes on by itself. -/
def deadline? : TimerPlace → Option Instant
  | .parked targets => some targets.earliest.wake
  | _ => none

end TimerPlace
end ServerWarden
