/-
# Watching a script that runs

A script that was started, with the handle on it and a clock.  Whether the script has ended, and
what it has done to the files, is found out by watching it from its start up to the present moment,
with the signals that were sent to it.
-/
import ServerWarden.Child.Handle
import ServerWarden.Fault
import ServerWarden.Launch
import ServerWarden.Shell.Run

namespace ServerWarden.Rehearsal

structure Watch where
  setting : Shell.Setting
  spec : LaunchSpec
  child : Child
  now : Instant

namespace Watch

/-- The script up to a moment, or to its end. -/
def outcome? (w : Watch) (horizon : Option Instant) : Option Shell.Outcome :=
  (Shell.execute { w.setting with horizon } w.spec.program w.spec.args).toOption

/-- The directory that a program is started in, if it is one. -/
def enter (files : FileTree) (directory : String) : Except SystemError FileTree := do
  match ← files.find directory with
  | .directory => .ok { files with workingDir := ← files.resolve directory }
  | _ => .error .notDirectory

/-- Starts a script at a moment. -/
def start (files : FileTree) (searchPath : Option String) (now : Instant) (spec : LaunchSpec) :
    Except Fault Watch :=
  let attempt : Except SystemError Watch := do
    let files ← enter files spec.workingDir
    let setting : Shell.Setting := ⟨files, searchPath, now, some now, []⟩
    let _ ← Shell.execute setting spec.program spec.args
    return ⟨setting, spec, .start, now⟩
  attempt.mapError fun e => .process (.spawn spec.program e)

/-- The files at the present moment. -/
def files (w : Watch) : FileTree :=
  match w.outcome? (some w.now) with
  | some o => o.files
  | none => w.setting.files

/-- Lets the child end if its script has ended by now. -/
def catchUp (w : Watch) : Watch :=
  match (w.outcome? (some w.now)).bind (·.status) with
  | some status => { w with child := w.child.finish status }
  | none => w

def isRunning (w : Watch) : Bool × Watch :=
  let w := w.catchUp
  let (up, child) := w.child.isRunning
  (up, { w with child })

/-- Lets time pass until the script has ended. -/
def awaitExit (w : Watch) : Watch :=
  match w.outcome? none with
  | some o => { w with now := if w.now < o.time then o.time else w.now }.isRunning.2
  | none => w

/-- How often a file is looked for. -/
def lookInterval : Duration := .ofMillis 1

/-- Lets time pass until a file is there, with at most `fuel` looks. -/
def awaitFile (path : String) : Nat → Watch → Watch
  | 0, w => w
  | fuel + 1, w =>
    if w.files.has path then w else awaitFile path fuel { w with now := w.now.add lookInterval }

def signalNumber : GroupSignal → Nat
  | .interrupt => 2
  | .kill => 9

/-- Lets the signals that the handle has sent since `before` reach the script. -/
def convey (w : Watch) (before : Child) : Watch :=
  let fresh := w.child.sent.take (w.child.sent.length - before.sent.length)
  let reached := (fresh.filter fun s => !s.wasFree).reverse
  { w with setting := { w.setting with
      signals := w.setting.signals ++ reached.map fun s => (w.now, signalNumber s.signal) } }

def interrupt (w : Watch) : Except SystemError Unit × Watch :=
  let w := w.catchUp
  let (result, child) := w.child.interrupt
  (result, { w with child }.convey w.child)

def terminate (w : Watch) : Watch :=
  let w := w.catchUp
  { w with child := w.child.terminate }.convey w.child

def release (w : Watch) : Watch :=
  let w := w.catchUp
  { w with child := w.child.release }.convey w.child

end Watch
end ServerWarden.Rehearsal
