/-
# A site without a server to answer

Runs a session where everything but the console is at hand: files, programs and the updater.  Lines
are kept in the order in which they were said.  A session whose server comes up would go on, and
ends here without a result.
-/
import ServerWarden.Control.Session
import ServerWarden.Reason
import ServerWarden.Rehearsal.Event
import ServerWarden.Rehearsal.Machine
import ServerWarden.Rehearsal.Watch
import ServerWarden.Updater

namespace ServerWarden.Rehearsal

structure Site where
  now : Instant
  files : FileTree
  searchPath : Option String
  updater : Updater
  coordinator : Coordinator
  /-- The programs that were started, in order. -/
  watches : Array Watch
  /-- What was said, the latest first. -/
  said : List Log.Line

namespace Site

def say (s : Site) (l : Log.Line) : Site := { s with said := l :: s.said }

/-- Does some work of the updater. -/
def work {α : Type} (s : Site) (w : Machine → Work α) : α × Site :=
  let done := (w (machine s.searchPath)).run s.files
  (done.value.1, { s with files := done.value.2, said := done.log.reverse ++ s.said })

def setPhase (s : Site) (p : TimerPhase) : Site :=
  match s.coordinator.changePhase? p with
  | none => s
  | some c =>
    { s with coordinator := c.wakeTimer }.say
      ⟨.debug, .coordinator, s!"Timer phase {s.coordinator.phase.name} -> {p.name}"⟩

/-- Uses a program that was started. -/
def use {α : Type} (s : Site) (h : Handle) (without : α) (f : Watch → α × Watch) : α × Site :=
  match s.watches[h.number]? with
  | none => (without, s)
  | some w =>
    let (a, w) := f { w with now := s.now }
    let files := { w.files with workingDir := s.files.workingDir }
    (a, { s with watches := s.watches.set! h.number w, files })

/-- Answers a request, unless the session would have to wait for its server. -/
def ask? (s : Site) : {β : Type} → Request β → Option (β × Site)
  | _, .clock => some (s.now, s)
  | _, .deadline d => (s.now.add? d).map (·, s)
  | _, .sleep d => some ((), { s with now := (s.now.add d).wake })
  | _, .say level speaker text => some ((), s.say ⟨level, speaker, text⟩)
  | _, .spawn spec =>
    match Watch.start s.files s.searchPath s.now spec with
    | .error e => some (.error e, s)
    | .ok w => some (.ok ⟨s.watches.size⟩, { s with watches := s.watches.push w })
  | _, .isRunning h => some (s.use h false Watch.isRunning)
  | _, .canInterrupt _ => some (true, s)
  | _, .interrupt h =>
    some (s.use h (.ok ()) fun w => let (r, w) := w.interrupt; (r.mapError (.file ∘ .system), w))
  | _, .terminate h => some (s.use h (.ok ()) fun w => (.ok (), w.terminate))
  | _, .exitCode h => some (s.use h none fun w => (w.child.exitCode, w))
  | _, .processId h => some (h.number, s)
  | _, .release h => some (s.use h () fun w => ((), w.release))
  | _, .isConnected => some (false, s)
  | _, .command _ _ => some ("", s)
  | _, .hangUp => some ((), s)
  | _, .checkServer => some (s.work s.updater.checkServer)
  | _, .checkFramework => some (s.work s.updater.checkFramework)
  | _, .updateServer => some (s.work s.updater.updateServer)
  | _, .updateFramework quiet => some (s.work fun m => s.updater.updateFramework m quiet)
  | _, .setPhase p => some ((), s.setPhase p)
  | _, .waitForSignals => none
  | _, .startTimer _ _ => some ((), s)
  | _, .joinTimer => some (true, s)
  | _, .takeReason path fallback =>
    let taken := Reason.take s.files path fallback
    some (taken.value.1, { s with files := taken.value.2, said := taken.log.reverse ++ s.said })

/-- The most steps of a session. -/
def stepLimit : Nat := 10000000

/-- Runs a session as far as it gets.  `fuel` bounds the steps. -/
def runSteps {α : Type} : Nat → Site → Program α → Option α × Site
  | 0, s, _ => (none, s)
  | fuel + 1, s, p =>
    match p with
    | .done a => (some a, s)
    | .ask r next =>
      match s.ask? r with
      | some (b, s) => runSteps fuel s (next b)
      | none => (none, s)
    | .iterate body state next => runSteps fuel s (.unfold body state next)

def run {α : Type} (s : Site) (p : Program α) : Option α × Site := runSteps stepLimit s p

end Site
end ServerWarden.Rehearsal
