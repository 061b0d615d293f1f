/-
# How a program ended

A program ends with a code of its own or by a signal.  `text` is the wording of both in messages.
-/

namespace ServerWarden

inductive ExitStatus where
  | exited (code : Nat)
  | signaled (signal : Nat)
  deriving DecidableEq, Repr

namespace ExitStatus

def isSuccess (s : ExitStatus) : Bool := s == .exited 0

/-- The code of a program that ended by itself. -/
def code? : ExitStatus → Option Int
  | .exited code => some code
  | .signaled _ => none

/-- The signals that messages spell out. -/
def signalName : Nat → Option String
  | 1 => some "SIGHUP"
  | 2 => some "SIGINT"
  | 3 => some "SIGQUIT"
  | 4 => some "SIGILL"
  | 6 => some "SIGABRT"
  | 8 => some "SIGFPE"
  | 9 => some "SIGKILL"
  | 10 => some "SIGUSR1"
  | 11 => some "SIGSEGV"
  | 12 => some "SIGUSR2"
  | 13 => some "SIGPIPE"
  | 14 => some "SIGALRM"
  | 15 => some "SIGTERM"
  | _ => none

def text : ExitStatus → String
  | .exited code => s!"exit status: {code}"
  | .signaled n =>
    match signalName n with
    | some name => s!"signal: {n} ({name})"
    | none => s!"signal: {n}"

end ExitStatus
end ServerWarden
