/-
# What the updater works with

A machine runs programs to their end and fetches pages.  Both may fail, and a program may change
files.  `Work` is a computation that reads and changes files and may say something; `Attempt` is one
that may fail with a fault.
-/
import ServerWarden.Fault
import ServerWarden.Files.Tree
import ServerWarden.Log

namespace ServerWarden

/-- A program that has ended. -/
structure Finished where
  status : ExitStatus
  /-- What it wrote to its standard output. -/
  output : List UInt8
  files : FileTree

/-- The answer of a server. -/
structure Page where
  status : Nat
  body : List UInt8

structure Machine where
  /-- Runs a program with arguments until it ends. -/
  run : FileTree → String → List String → Except SystemError Finished
  /-- Asks a server for a page, and gets an answer unless the connection fails. -/
  fetch : String → Option Page

abbrev Work := StateT FileTree Logged

abbrev Attempt := ExceptT Fault Work

namespace Work

def say (level : Log.Level) (speaker : Log.Speaker) (text : String) : Work Unit :=
  StateT.lift (Logged.say level speaker text)

end Work

namespace Attempt

def say (level : Log.Level) (speaker : Log.Speaker) (text : String) : Attempt Unit :=
  ExceptT.lift (Work.say level speaker text)

/-- Does a file operation that has no other result. -/
def change (f : FileTree → Except SystemError FileTree) : Attempt Unit := do
  match f (← get) with
  | .ok files => set files
  | .error e => throw (.file (.system e))

/-- Runs a program.  Failing to start it is a fault of the caller's making. -/
def runProgram (m : Machine) (program : String) (args : List String) (fault : SystemError → Fault) :
    Attempt Finished := do
  match m.run (← get) program args with
  | .error e => throw (fault e)
  | .ok finished =>
    set finished.files
    return finished

end Attempt
end ServerWarden
