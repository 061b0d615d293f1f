/-
# A started program

A child leads a process group of its own.  When it has ended the system keeps its status until that
is fetched, which frees the number of the child and of its group.  A handle fetches the status as
soon as it looks and finds one, and keeps it; from then on the child is known to be over.  Giving up
a handle ends a child that still runs.

`Child` holds both sides, what the system knows and what the handle knows.  `finish` is the only
step that the child takes by itself.
-/
import ServerWarden.Child.Status
import ServerWarden.Files.Error

namespace ServerWarden

/-- What the system knows of a child. -/
inductive ChildLife where
  | running
  /-- It has ended, and its status can be fetched. -/
  | ended (status : ExitStatus)
  /-- Its status was fetched, and its number is free. -/
  | reaped
  deriving DecidableEq, Repr

/-- A signal to the whole group of a child. -/
inductive GroupSignal where
  | interrupt
  | kill
  deriving DecidableEq, Repr

/-- A signal that was sent, and whether the number of the group was free by then. -/
structure SentSignal where
  signal : GroupSignal
  wasFree : Bool
  deriving DecidableEq, Repr

structure Child where
  life : ChildLife
  /-- The status that the handle has fetched. -/
  status : Option ExitStatus
  /-- The signals that the handle has sent, the latest first. -/
  sent : List SentSignal
  deriving DecidableEq, Repr

namespace Child

/-- A child that was started just now. -/
def start : Child := ⟨.running, none, []⟩

/-- The child ends. -/
def finish (c : Child) (status : ExitStatus) : Child :=
  match c.life with
  | .running => { c with life := .ended status }
  | _ => c

/-- Fetches the status if there is one. -/
def fetch (c : Child) : Child :=
  match c.life with
  | .ended status => { c with life := .reaped, status := some status }
  | _ => c

/-- Whether the child runs, as far as the handle can tell. -/
def isRunning (c : Child) : Bool × Child :=
  match c.status with
  | some _ => (false, c)
  | none => let c := c.fetch; (c.status.isNone, c)

/-- Sends a signal to the group.  The system refuses if there is no such group. -/
def send (c : Child) (s : GroupSignal) : Except SystemError Unit × Child :=
  let isFree := c.life == .reaped
  (if isFree then .error .noSuchProcess else .ok (), { c with sent := ⟨s, isFree⟩ :: c.sent })

def interrupt (c : Child) : Except SystemError Unit × Child := c.send .interrupt

/-- The status of a child that was killed. -/
def killed : ExitStatus := .signaled 9

/-- Ends the child, unless the handle knows it to be over, and fetches its status. -/
def terminate (c : Child) : Child :=
  match c.status with
  | some _ => c
  | none => ((c.send .kill).2.finish killed).fetch

/-- The exit code that the handle knows. -/
def exitCode (c : Child) : Option Int := c.status.bind ExitStatus.code?

/-- Gives up the handle. -/
def release (c : Child) : Child :=
  match c.isRunning with
  | (true, c) => c.terminate
  | (false, c) => c

end Child
end ServerWarden
