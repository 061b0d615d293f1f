/-
# Tasks that are looked at by name

Some tasks go on only when they are looked at.  Each has a name; a new task takes the place of an
older one of its name.  `Signalled` holds tasks that wait for signals of a coordinator, and `Calls`
holds commands on a console, whose client lives as long as its holder or an unfinished command keeps
it.
-/
import ServerWarden.Rehearsal.Stage

namespace ServerWarden.Rehearsal

/-- What a look at a task finds. -/
inductive Glance (α : Type) where
  /-- There is no task of that name. -/
  | unknown
  /-- It was finished before. -/
  | done
  | pending
  | ready (result : α)

/-! ## 1. Waiting for signals -/

/-- A coordinator, and the tasks that wait for its signals. -/
structure Signalled where
  coordinator : Coordinator
  next : WaiterId
  tasks : List (String × WaiterId × Coordinator.WaitPlace)

namespace Signalled

def initial : Signalled := ⟨.initial, 0, []⟩

/-- Gives up the task of a name. -/
def drop (s : Signalled) (name : String) : Signalled :=
  match s.tasks.lookup name with
  | none => s
  | some (w, place) =>
    { s with
      coordinator := s.coordinator.abandonWait w place
      tasks := s.tasks.filter fun t => t.1 != name }

/-- Looks at the task of a name, and lets it run. -/
def poll (s : Signalled) (name : String) : Glance Signals × Signalled :=
  match s.tasks.lookup name with
  | none => (.unknown, s)
  | some (_, .finished) => (.done, s)
  | some (w, place) =>
    let (result, place, coordinator) := s.coordinator.pollWait w place
    let tasks := (name, w, place) :: s.tasks.filter fun t => t.1 != name
    (result.elim .pending .ready, { s with coordinator, tasks })

/-- Starts a task and looks at it. -/
def start (s : Signalled) (name : String) : Glance Signals × Signalled :=
  let s := s.drop name
  { s with next := s.next + 1, tasks := (name, s.next, .fresh) :: s.tasks }.poll name

end Signalled

/-! ## 2. Commands on a console -/

/-- A stage, and the commands that were sent on it.  A command without a place is finished. -/
structure Calls where
  stage : Stage
  calls : List (String × Option Stage.Call)
  /-- Whether the client still has its holder. -/
  isHeld : Bool
  isClosed : Bool

namespace Calls

def ofStage (stage : Stage) : Calls := ⟨stage, [], true, false⟩

/-- Closes the connection when the client has gone. -/
def settle (c : Calls) : Calls :=
  if c.isHeld || c.isClosed || c.calls.any fun e => e.2.isSome then c
  else { c with stage := c.stage.record "close" [], isClosed := true }

def put (c : Calls) (name : String) (call : Option Stage.Call) : Calls :=
  { c with calls := (name, call) :: c.calls.filter fun e => e.1 != name }

/-- Gives up the command of a name. -/
def drop (c : Calls) (name : String) : Calls :=
  match c.calls.lookup name with
  | some (some call) =>
    { c with
      stage := c.stage.leave (.waiting call.ticket call.deadline)
      calls := c.calls.filter fun e => e.1 != name }.settle
  | _ => { c with calls := c.calls.filter fun e => e.1 != name }

/-- Looks at the command of a name, and lets it run. -/
def poll (c : Calls) (name : String) : Glance String × Calls :=
  match c.calls.lookup name with
  | none => (.unknown, c)
  | some none => (.done, c)
  | some (some call) =>
    match c.stage.pollCall call with
    | (some answer, stage) => (.ready answer, ({ c with stage }.put name none).settle)
    | (none, stage) => (.pending, { c with stage })

/-- Sends a command under a name, if the client still has its holder. -/
def send? (c : Calls) (name command : String) (timeout : Duration) :
    Option (Glance String × Calls) :=
  if !c.isHeld then none
  else
    let c := c.drop name
    match c.stage.beginCall command timeout with
    | (.inl answer, stage) => some (.ready answer, { c with stage }.put name none)
    | (.inr call, stage) => some (.pending, { c with stage }.put name (some call))

/-- The holder gives up the client. -/
def letGo (c : Calls) : Calls := { c with isHeld := false }.settle

end Calls
end ServerWarden.Rehearsal
