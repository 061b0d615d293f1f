/-
# What a history tells about a session

A session goes by what it has done: it starts the server at an occasion, asks the gateway in a pass
that begins there, and ends for a reason.  None of this is in its answers one by one, but all of it
is in their order.  A `Diary` is what the history so far tells: each answer adds to it
(`Diary.add`), and `diary` reads a whole history.

Only requests and answers are read, and nothing of the program.  Two things show by their place
alone.  A look at the server finds it down by itself if it is the first one since signals were
taken, or since the phase was set, while the timer runs; and a start has failed once nothing could
be started, or what was started is ended before it was seen running.
-/
import Mathlib.Data.List.Induction
import ServerWarden.Proofs.Control.Requests

namespace ServerWarden

open Surroundings

/-! ## 1. What is written down -/

/-- Why the supervisor does what it does. -/
inductive Occasion where
  | startup
  /-- Signals were taken. -/
  | wake
  /-- Signals were taken, and an install has begun. -/
  | update
  /-- The server was found down. -/
  | relaunch
  deriving DecidableEq, Repr

namespace Occasion

/-- The same occasion once an install begins. -/
def installing : Occasion → Occasion
  | .wake => .update
  | o => o

/-- Whether checks are made because an update check was signalled. -/
def atInterval (o : Occasion) : Bool := o.installing = .update

/-- What is checked at an occasion. -/
def policy (s : SupervisorSettings) : Occasion → UpdatePolicy
  | .startup => s.onStartup
  | .wake => s.onInterval
  | .update => s.onInterval
  | .relaunch => s.onRelaunch

@[simp] theorem installing_installing (o : Occasion) : o.installing.installing = o.installing := by
  cases o <;> rfl

end Occasion

inductive ArtifactKind where
  | server
  | framework
  deriving DecidableEq, Repr

/-- A request to the gateway, with its answer. -/
inductive GatewayCall where
  | check (kind : ArtifactKind) (newer : Bool)
  | install (kind : ArtifactKind)
  deriving DecidableEq, Repr

/-- What an artifact is. -/
def GatewayCall.kind : GatewayCall → ArtifactKind
  | .check k _ => k
  | .install k => k

/-- The last call for one kind of artifact. -/
def lastCall? (k : ArtifactKind) (calls : List GatewayCall) : Option GatewayCall :=
  (calls.filter (·.kind = k)).getLast?

theorem lastCall?_append_self {k : ArtifactKind} {calls : List GatewayCall} {c : GatewayCall}
    (hc : c.kind = k) : lastCall? k (calls ++ [c]) = some c := by
  simp [lastCall?, List.filter_append, hc]

theorem lastCall?_append_of_ne {k : ArtifactKind} {calls : List GatewayCall} {c : GatewayCall}
    (hc : c.kind ≠ k) : lastCall? k (calls ++ [c]) = lastCall? k calls := by
  simp [lastCall?, List.filter_append, hc]

/-- What may end a session. -/
inductive Note where
  /-- Signals were taken that tell of a stop. -/
  | stopTold
  /-- The server was found down. -/
  | foundDown
  | startFailed (o : Occasion)
  deriving DecidableEq, Repr

/-- The exit code that a note leads to, if it ends the session. -/
def Note.exitCode? (autoRestart : Bool) : Note → Option ExitCode
  | .stopTold => some .success
  | .foundDown => if autoRestart then none else some .unexpectedStopRestartFailure
  | .startFailed .startup => some .startFailure
  | .startFailed .wake => none
  | .startFailed .update => some .updateRestartFailure
  | .startFailed .relaunch => some .unexpectedStopRestartFailure

/-- The exit codes that notes lead to. -/
def verdicts (s : SupervisorSettings) (notes : List Note) : List ExitCode :=
  notes.filterMap (Note.exitCode? s.autoRestart)

@[simp] theorem verdicts_append (s : SupervisorSettings) (notes later : List Note) :
    verdicts s (notes ++ later) = verdicts s notes ++ verdicts s later :=
  List.filterMap_append

theorem verdicts_singleton {s : SupervisorSettings} {n : Note} {code : ExitCode}
    (h : n.exitCode? s.autoRestart = some code) : verdicts s [n] = [code] := by
  simp [verdicts, h]

theorem mem_verdicts {s : SupervisorSettings} {notes : List Note} {code : ExitCode} :
    code ∈ verdicts s notes ↔ ∃ n ∈ notes, n.exitCode? s.autoRestart = some code :=
  List.mem_filterMap

/-! ## 2. The diary -/

structure Diary where
  /-- The phase that the supervisor has set.  The last one is never left. -/
  phase : TimerPhase
  /-- Whether the timer was started. -/
  timed : Bool
  /-- How the timer ended, once its end was waited for. -/
  joined : Option Bool
  /-- Whether a shutdown was held back since signals were taken or a process was started. -/
  delayed : Bool
  /-- Whether the server was looked at since signals were taken or the phase was set. -/
  looked : Bool
  /-- The signals that were taken last. -/
  signals : Signals
  occasion : Occasion
  /-- The calls of the gateway since the startup, the last signals, or the last crash. -/
  calls : List GatewayCall
  /-- A process that was started and was not yet seen running. -/
  rising : Option Handle
  notes : List Note

namespace Diary

/-- Before anything was answered. -/
def blank : Diary where
  phase := .run
  timed := false
  joined := none
  delayed := false
  looked := false
  signals := .none
  occasion := .startup
  calls := []
  rising := none
  notes := []

/-- The timer was started, and runs. -/
def ticking (d : Diary) : Bool := d.timed && d.phase = .run

def wake (d : Diary) (signals : Signals) : Diary :=
  { d with
    delayed := false
    looked := false
    signals
    occasion := .wake
    calls := []
    notes := d.notes ++ if signals.stop then [.stopTold] else [] }

def spawned (d : Diary) : Except Fault Handle → Diary
  | .error _ => { d with delayed := false, notes := d.notes ++ [.startFailed d.occasion] }
  | .ok h => { d with delayed := false, rising := some h }

/-- The server was found down. -/
def crashed (d : Diary) : Diary :=
  { d with looked := true, occasion := .relaunch, calls := [], notes := d.notes ++ [.foundDown] }

/-- A look at the server while the timer runs. -/
def look (d : Diary) (up : Bool) : Diary :=
  if d.looked then d else if up then { d with looked := true } else d.crashed

/-- A look at a process while the timer does not run. -/
def watch (d : Diary) (h : Handle) (up : Bool) : Diary :=
  if up = true ∧ d.rising = some h then { d with rising := none } else d

/-- A process is ended. -/
def finish (d : Diary) (h : Handle) : Diary :=
  if d.rising = some h then
    { d with rising := none, notes := d.notes ++ [.startFailed d.occasion] }
  else d

def call (d : Diary) : GatewayCall → Diary
  | .check k newer => { d with calls := d.calls ++ [.check k newer] }
  | .install k =>
    { d with calls := d.calls ++ [.install k], occasion := d.occasion.installing }

/-- One more answer. -/
def add (d : Diary) : Exchange → Diary
  | ⟨.startTimer .., _⟩ => { d with timed := true }
  | ⟨.joinTimer, ended⟩ => { d with joined := some ended }
  | ⟨.setPhase p, _⟩ => { d with phase := if d.phase = .stop then .stop else p, looked := false }
  | ⟨.waitForSignals, signals⟩ => d.wake signals
  | ⟨.deadline _, _⟩ => { d with delayed := true }
  | ⟨.spawn _, result⟩ => d.spawned result
  | ⟨.isRunning h, up⟩ => if d.ticking then d.look up else d.watch h up
  | ⟨.terminate h, _⟩ => d.finish h
  | ⟨.checkServer, newer⟩ => d.call (.check .server newer)
  | ⟨.checkFramework, newer⟩ => d.call (.check .framework newer)
  | ⟨.updateServer, _⟩ => d.call (.install .server)
  | ⟨.updateFramework _, _⟩ => d.call (.install .framework)
  | _ => d

end Diary

/-- What a history tells. -/
def diary (history : List Exchange) : Diary := history.foldl Diary.add .blank

@[simp] theorem diary_append (history : List Exchange) (x : Exchange) :
    diary (history ++ [x]) = (diary history).add x := by
  simp [diary, List.foldl_append]

/-- What holds of a blank diary, and is kept by every answer, holds of every diary. -/
theorem diary_induction {P : Diary → Prop} (blank : P .blank) (add : ∀ d x, P d → P (d.add x))
    (history : List Exchange) : P (diary history) := by
  induction history using List.reverseRecOn with
  | nil => exact blank
  | append_singleton history x ih => exact diary_append history x ▸ add _ x ih

/-! ## 3. What an answer adds -/

namespace Request

/-- Requests by which a session steers its timer, or hears of it. -/
def Steers : ⦃β : Type⦄ → Request β → Prop
  | _, .setPhase _ => True
  | _, .waitForSignals => True
  | _, .startTimer .. => True
  | _, .joinTimer => True
  | _, _ => False

theorem TakesSignals.steers {β : Type} {r : Request β} (h : r.TakesSignals) : r.Steers := by
  cases r <;> first | exact trivial | exact h.elim

/-- What is checked for a newer version. -/
def checks? : ⦃β : Type⦄ → Request β → Option ArtifactKind
  | _, .checkServer => some .server
  | _, .checkFramework => some .framework
  | _, _ => none

/-- What is installed. -/
def installs? : ⦃β : Type⦄ → Request β → Option ArtifactKind
  | _, .updateServer => some .server
  | _, .updateFramework _ => some .framework
  | _, _ => none

end Request

namespace Diary

/-- **What an answer may add to a diary**, one way at a time. -/
inductive Added (d : Diary) : {β : Type} → Request β → β → Diary → Prop where
  | timerStarted (health update : Duration) (u : Unit) :
      Added d (.startTimer health update) u { d with timed := true }
  | timerJoined (ended : Bool) : Added d .joinTimer ended { d with joined := some ended }
  | phaseSet (p : TimerPhase) (u : Unit) : Added d (.setPhase p) u
      { d with phase := if d.phase = .stop then .stop else p, looked := false }
  | woken (signals : Signals) : Added d .waitForSignals signals (d.wake signals)
  | heldBack (span : Duration) (deadline : Instant) :
      Added d (.deadline span) deadline { d with delayed := true }
  | spawnFailed (spec : LaunchSpec) (e : Fault) : Added d (.spawn spec) (.error e)
      { d with delayed := false, notes := d.notes ++ [.startFailed d.occasion] }
  | spawned (spec : LaunchSpec) (h : Handle) : Added d (.spawn spec) (.ok h)
      { d with delayed := false, rising := some h }
  | seen (h : Handle) : Added d (.isRunning h) true { d with looked := true }
  | crashed (h : Handle) : Added d (.isRunning h) false d.crashed
  | risen (h : Handle) : Added d (.isRunning h) true { d with rising := none }
  | discarded (h : Handle) (result : Except Fault Unit) : Added d (.terminate h) result
      { d with rising := none, notes := d.notes ++ [.startFailed d.occasion] }
  | called {β : Type} {r : Request β} (b : β) (c : GatewayCall) :
      r.checks? = some c.kind ∨ r.installs? = some c.kind → Added d r b (d.call c)
  | nothing {β : Type} (r : Request β) (b : β) : Added d r b d

theorem added {β : Type} (d : Diary) (r : Request β) (b : β) : Added d r b (d.add ⟨r, b⟩) := by
  cases r
  case startTimer health update => exact .timerStarted health update b
  case joinTimer => exact .timerJoined b
  case setPhase p => exact .phaseSet p b
  case waitForSignals => exact .woken b
  case deadline span => exact .heldBack span b
  case spawn spec =>
    cases b with
    | error e => exact .spawnFailed spec e
    | ok h => exact .spawned spec h
  case isRunning h =>
    show Added d (.isRunning h) b (if d.ticking then d.look b else d.watch h b)
    cases b with
    | false =>
      simp only [look, watch, Bool.false_eq_true, if_false, false_and]
      split_ifs
      exacts [.nothing _ _, .crashed h, .nothing _ _]
    | true =>
      simp only [look, watch, if_true, true_and]
      split_ifs
      exacts [.nothing _ _, .seen h, .risen h, .nothing _ _]
  case terminate h =>
    show Added d (.terminate h) b (d.finish h)
    unfold finish
    split
    · exact .discarded h b
    · exact .nothing _ b
  case checkServer => exact .called b (.check .server b) (Or.inl rfl)
  case checkFramework => exact .called b (.check .framework b) (Or.inl rfl)
  case updateServer => exact .called b (.install .server) (Or.inr rfl)
  case updateFramework quiet => exact .called b (.install .framework) (Or.inr rfl)
  all_goals exact .nothing _ b

/-- What a diary says about the timer is the same. -/
structure SameTimer (d u : Diary) : Prop where
  phase : u.phase = d.phase
  timed : u.timed = d.timed
  joined : u.joined = d.joined
  signals : u.signals = d.signals

/-- **Only four requests have to do with the timer.** -/
theorem add_sameTimer {β : Type} {r : Request β} (d : Diary) (b : β) (hr : ¬ r.Steers) :
    SameTimer d (d.add ⟨r, b⟩) := by
  have h := d.added r b
  generalize d.add ⟨r, b⟩ = u at h
  cases h with
  | timerStarted | timerJoined | phaseSet | woken => exact absurd trivial hr
  | called b c => cases c <;> exact ⟨rfl, rfl, rfl, rfl⟩
  | _ => exact ⟨rfl, rfl, rfl, rfl⟩

/-- A relaunch is one of a server that was found down. -/
def Relaunched (d : Diary) : Prop :=
  d.occasion = .relaunch ∨ .startFailed .relaunch ∈ d.notes → .foundDown ∈ d.notes

theorem Relaunched.add {d : Diary} (h : d.Relaunched) (x : Exchange) : (d.add x).Relaunched := by
  obtain ⟨r, b⟩ := x
  have ha := d.added r b
  generalize d.add ⟨r, b⟩ = u at ha
  cases ha with
  | woken signals => grind [Relaunched, wake]
  | spawnFailed spec e => grind [Relaunched]
  | crashed p => grind [Relaunched, Diary.crashed]
  | discarded p result => grind [Relaunched]
  | called b c => cases c <;> grind [Relaunched, call, Occasion.installing]
  | _ => exact h

theorem relaunched (history : List Exchange) : (diary history).Relaunched :=
  diary_induction (by simp [Relaunched, blank]) (fun _ x h => h.add x) history

end Diary
end ServerWarden
