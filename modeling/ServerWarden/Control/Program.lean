/-
# Control programs

A control program is what the supervisor does, as a value: it ends with a result, or asks its
surroundings for something and goes on with the answer, or repeats a body from a state until the
body ends.  What the surroundings are is left open: a rehearsal answers from a script, a proof lets
every answer happen.

A repetition has no bound of its own, and needs none: `unfold` is one step of it.
-/
import ServerWarden.Coordinator.Basic
import ServerWarden.Fault
import ServerWarden.Launch
import ServerWarden.Time.Duration

namespace ServerWarden

/-- A process that was started, by the number of its start. -/
structure Handle where
  number : Nat
  deriving DecidableEq, Repr

/-- What a program may ask for, with the type of the answer. -/
inductive Request : Type → Type where
  /-- The present moment. -/
  | clock : Request Instant
  /-- The moment that is `d` from now.  A program does not live past a moment that no clock holds.
  -/
  | deadline (d : Duration) : Request Instant
  | sleep (d : Duration) : Request Unit
  | say (level : Log.Level) (speaker : Log.Speaker) (text : String) : Request Unit
  /-- Starts a process. -/
  | spawn (spec : LaunchSpec) : Request (Except Fault Handle)
  | isRunning (h : Handle) : Request Bool
  | canInterrupt (h : Handle) : Request Bool
  | interrupt (h : Handle) : Request (Except Fault Unit)
  | terminate (h : Handle) : Request (Except Fault Unit)
  | exitCode (h : Handle) : Request (Option Int)
  | processId (h : Handle) : Request Nat
  /-- Gives up a process, which ends it if it still runs. -/
  | release (h : Handle) : Request Unit
  | isConnected : Request Bool
  /-- Sends a console command.  The answer is empty if none comes in time; without time, none is
  waited for. -/
  | command (text : String) (timeout : Duration) : Request String
  /-- Gives up the console. -/
  | hangUp : Request Unit
  | checkServer : Request Bool
  | checkFramework : Request Bool
  | updateServer : Request Unit
  /-- Installs the framework; `quiet` if it is expected to be missing. -/
  | updateFramework (quiet : Bool) : Request Unit
  | setPhase (p : TimerPhase) : Request Unit
  /-- Waits until there are signals, and takes them. -/
  | waitForSignals : Request Signals
  | startTimer (health update : Duration) : Request Unit
  /-- Waits for the end of the timer.  Answers whether it ended well. -/
  | joinTimer : Request Bool
  /-- Takes the shutdown reason out of a file. -/
  | takeReason (path : Option String) (fallback : String) : Request String

/-- A control program with a result. -/
inductive Program : Type → Type 1 where
  | done {α : Type} (result : α) : Program α
  | ask {α β : Type} (request : Request β) (next : β → Program α) : Program α
  /-- Repeats `body` from `state`.  A left result is the next state; a right one ends the
  repetition. -/
  | iterate {α β σ : Type} (body : σ → Program (σ ⊕ β)) (state : σ) (next : β → Program α) :
      Program α

namespace Program

def bind {α β : Type} : Program α → (α → Program β) → Program β
  | .done a, f => f a
  | .ask r next, f => .ask r fun b => (next b).bind f
  | .iterate body s next, f => .iterate body s fun b => (next b).bind f

instance : Monad Program where
  pure := .done
  bind := bind

/-- Asks, and answers with the answer. -/
def request {β : Type} (r : Request β) : Program β := .ask r .done

/-- Repeats a body from a state until it ends. -/
def loop {β σ : Type} (body : σ → Program (σ ⊕ β)) (state : σ) : Program β :=
  .iterate body state .done

/-- What comes after one run of a repeated body. -/
def resume {α β σ : Type} (body : σ → Program (σ ⊕ β)) (next : β → Program α) :
    σ ⊕ β → Program α
  | .inl s => .iterate body s next
  | .inr b => next b

/-- A repetition after one run of its body. -/
def unfold {α β σ : Type} (body : σ → Program (σ ⊕ β)) (state : σ) (next : β → Program α) :
    Program α := (body state).bind (resume body next)

def say (level : Log.Level) (speaker : Log.Speaker) (text : String) : Program Unit :=
  request (.say level speaker text)

theorem bind_done {α : Type} (p : Program α) : p.bind .done = p := by
  induction p with
  | done a => rfl
  | ask r next ih => simp only [bind, ih]
  | iterate body s next _ ih => simp only [bind, ih]

theorem bind_assoc {α β γ : Type} (p : Program α) (f : α → Program β) (g : β → Program γ) :
    (p.bind f).bind g = p.bind fun a => (f a).bind g := by
  induction p with
  | done a => rfl
  | ask r next ih => simp only [bind, ih]
  | iterate body s next _ ih => simp only [bind, ih]

instance : LawfulMonad Program := LawfulMonad.mk' Program
  (fun p => bind_done p) (fun _ _ => rfl) (fun p f g => bind_assoc p f g)

end Program
end ServerWarden
