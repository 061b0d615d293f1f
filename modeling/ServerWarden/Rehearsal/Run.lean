/-
# Running a program on a stage

At each moment actions come first, then the program as far as it gets, then answers and the timer.
Only when nothing is left at the present moment does the clock move, to the next moment at which
something is due.  A run may have a limit: at that moment the program may go on once more, and then
the run ends.
-/
import ServerWarden.Control.Program
import ServerWarden.Rehearsal.Stage

namespace ServerWarden.Rehearsal

/-- What a program waits for. -/
inductive Wait : Type → Type 1 where
  | moment {β : Type} (time : Instant) (answer : β) : Wait β
  | reply (call : Stage.Call) : Wait String
  | signals (place : Coordinator.WaitPlace) : Wait Signals
  /-- The end of the timer. -/
  | timer : Wait Bool
  /-- A moment that no clock holds. -/
  | never {β : Type} : Wait β

/-- Where a program stands. -/
inductive Task (α : Type) : Type 1 where
  | ready (p : Program α)
  | waiting {β : Type} (w : Wait β) (next : β → Program α)
  | finished (result : α)

namespace Stage

/-- The number of the supervisor among those that wait for signals, and of the timer among those
that wait for a change of phase. -/
def onlyWaiter : WaiterId := 0

/-! ## 1. Requests -/

/-- Answers at a moment. -/
def answerAt {β : Type} (s : Stage) (time : Instant) (answer : β) : (β ⊕ Wait β) × Stage :=
  if time.wake ≤ s.now then (.inl answer, s) else (.inr (.moment time answer), s)

def answerAfter {β : Type} (s : Stage) (d : Duration) (answer : β) : (β ⊕ Wait β) × Stage :=
  s.answerAt (s.deadlineAfter d) answer

/-- Answers a request, or tells what to wait for. -/
def ask (s : Stage) : {β : Type} → Request β → (β ⊕ Wait β) × Stage
  | _, .clock => (.inl s.now, s)
  | _, .deadline d =>
    match s.now.add? d with
    | some time => (.inl time, s)
    | none => (.inr .never, s)
  | _, .sleep d => s.answerAfter d ()
  | _, .say level _ text => (.inl (), s.say level text)
  | _, .spawn spec => let (r, s) := s.spawn spec; (.inl r, s)
  | _, .isRunning h => let (r, s) := s.isRunning h; (.inl r, s)
  | _, .canInterrupt h => (.inl (s.canInterrupt h), s)
  | _, .interrupt h => let (r, s) := s.interrupt h; (.inl r, s)
  | _, .terminate h => let (r, s) := s.terminate h; (.inl r, s)
  | _, .exitCode h => (.inl (s.exitCode h), s)
  | _, .processId _ => (.inl 4242, s)
  | _, .release _ => (.inl (), s)
  | _, .isConnected => (.inl s.isOpen, s)
  | _, .command text timeout =>
    match s.beginCall text timeout with
    | (.inl answer, s) => (.inl answer, s)
    | (.inr call, s) => (.inr (.reply call), s)
  | _, .hangUp => (.inl (), s.record "close" [])
  | _, .checkServer =>
    let (answer, rest) := (s.updates.server.next?).getD (false, [])
    let s := s.record "check_server" [.flag answer]
    let updates := { s.updates with server := rest }
    { s with updates }.answerAfter s.updates.checkTime answer
  | _, .checkFramework =>
    let (answer, rest) := (s.updates.framework.next?).getD (false, [])
    let s := s.record "check_framework" [.flag answer]
    let updates := { s.updates with framework := rest }
    { s with updates }.answerAfter s.updates.checkTime answer
  | _, .updateServer => (s.record "update_server" []).answerAfter s.updates.installTime ()
  | _, .updateFramework quiet =>
    (s.record "update_framework" [.flag quiet]).answerAfter s.updates.installTime ()
  | _, .setPhase p => (.inl (), { s with coordinator := s.coordinator.setPhase p })
  | _, .waitForSignals =>
    match s.coordinator.pollWait onlyWaiter .fresh with
    | (some signals, _, coordinator) => (.inl signals, { s with coordinator })
    | (none, place, coordinator) => (.inr (.signals place), { s with coordinator })
  | _, .startTimer health update =>
    let plan := TimerPlan.of health update
    (.inl (), { s with timer := some (plan, .start plan s.now) })
  | _, .joinTimer => (.inr .timer, s)
  | _, .takeReason path fallback =>
    let taken := Reason.take s.files path fallback
    (.inl taken.value.1, { s with files := taken.value.2 }.sayAll taken.log)

/-- Goes on with a wait, if what was waited for is there. -/
def resume? (s : Stage) : {β : Type} → Wait β → Option ((β ⊕ Wait β) × Stage)
  | _, .moment time answer => if time.wake ≤ s.now then some (.inl answer, s) else none
  | _, .reply call =>
    match s.pollCall call with
    | (some answer, s) => some (.inl answer, s)
    | (none, _) => none
  | _, .signals place =>
    if s.coordinator.supervisorWake.isChosen onlyWaiter then
      match s.coordinator.pollWait onlyWaiter place with
      | (some signals, _, coordinator) => some (.inl signals, { s with coordinator })
      | (none, place, coordinator) => some (.inr (.signals place), { s with coordinator })
    else none
  | _, .timer =>
    match s.timer with
    | none | some (_, .finished) => some (.inl true, s)
    | some (_, .failed) => some (.inl false, s)
    | _ => none
  | _, .never => none

end Stage

/-! ## 2. Steps -/

namespace Wait

/-- The moment at which a wait ends by itself. -/
def deadline? : {β : Type} → Wait β → Option Instant
  | _, .moment time _ => some time.wake
  | _, .reply call => some call.deadline.wake
  | _, .signals _ => none
  | _, .timer => none
  | _, .never => none

end Wait

namespace Task

variable {α : Type}

/-- One step of a program, if there is one at this moment. -/
def step? (s : Stage) : Task α → Option (Task α × Stage)
  | .finished _ => none
  | .ready (.done a) => some (.finished a, s)
  | .ready (.ask r next) =>
    match s.ask r with
    | (.inl b, s) => some (.ready (next b), s)
    | (.inr w, s) => some (.waiting w next, s)
  | .ready (.iterate body state next) => some (.ready (.unfold body state next), s)
  | .waiting w next =>
    match s.resume? w with
    | some (.inl b, s) => some (.ready (next b), s)
    | some (.inr w, s) => some (.waiting w next, s)
    | none => none

def deadline? : Task α → Option Instant
  | .waiting w _ => w.deadline?
  | _ => none

end Task

namespace Stage

def stepTimer? (s : Stage) : Option Stage :=
  s.timer.bind fun (plan, place) =>
    (place.step? plan onlyWaiter s.now s.coordinator).map fun (place, coordinator) =>
      { s with timer := some (plan, place), coordinator }

/-- What happens besides the program, if something is due: a cue, or a step of the timer. -/
def stepAlone? (s : Stage) : Option Stage :=
  match s.cues with
  | (time, cue) :: rest =>
    if time ≤ s.now then some ({ s with cues := rest }.perform cue) else s.stepTimer?
  | [] => s.stepTimer?

/-- The earlier of two moments, if there is one. -/
def sooner : Option Instant → Option Instant → Option Instant
  | some a, some b => some (a.earliest b)
  | some a, none => some a
  | none, b => b

/-- The next moment at which something happens besides the program. -/
def nextMoment? (s : Stage) : Option Instant :=
  sooner (s.cues.head?.map fun c => c.1.wake) (s.timer.bind fun t => t.2.deadline?)

/-- The action that is due, done. -/
def stepAction? (s : Stage) : Option Stage :=
  match s.cues with
  | (time, .action a) :: rest => if time ≤ s.now then some ({ s with cues := rest }.act a) else none
  | _ => none

/-! ## 3. Runs -/

/-- The most steps of a run. -/
def stepLimit : Nat := 100000000

/-- Runs a program until it is finished, its limit is reached, or nothing can happen any more. -/
def runSteps {α : Type} (limit : Option Instant) : Nat → Stage → Task α → Task α × Stage
  | 0, s, t => (t, s)
  | fuel + 1, s, t =>
    match s.stepAction?, t.step? s with
    | some s, _ => runSteps limit fuel s t
    | none, some (t, s) => runSteps limit fuel s t
    | none, none =>
      match t with
      | .finished _ => (t, s)
      | _ =>
        if limit.any fun time => decide (time ≤ s.now) then (t, s)
        else
          match s.stepAlone? with
          | some s => runSteps limit fuel s t
          | none =>
            match sooner limit (sooner t.deadline? s.nextMoment?) with
            | some time => runSteps limit fuel { s with now := time } t
            | none => (t, s)

/-- Runs a program, for at most a time if one is given. -/
def run {α : Type} (s : Stage) (p : Program α) (atMost : Option Duration) : Option α × Stage :=
  match runSteps (atMost.map s.now.add) stepLimit s (.ready p) with
  | (.finished a, s) => (some a, s)
  | (.waiting (.signals place) _, s) =>
    (none, { s with coordinator := s.coordinator.abandonWait onlyWaiter place })
  | (_, s) => (none, s)

/-- Lets everything happen that is due. -/
def settle (s : Stage) : Stage := go stepLimit s
where
  go : Nat → Stage → Stage
    | 0, s => s
    | fuel + 1, s =>
      match s.stepAlone? with
      | some s => go fuel s
      | none => s

end Stage
end ServerWarden.Rehearsal
