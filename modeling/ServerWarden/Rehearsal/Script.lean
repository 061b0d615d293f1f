/-
# Scripts

What the surroundings of a rehearsal do.  A script lists the answers to the first, the second and
the later questions of a kind, and its last answer repeats.  A process follows a part of its own:
when it dies by itself, how it comes up, and what it does when it is asked to go.
-/
import ServerWarden.Coordinator.Basic
import ServerWarden.Files.System

namespace ServerWarden.Rehearsal

/-- Answers in turn, the last of which repeats. -/
abbrev Script (α : Type) := List α

/-- The next answer, and the script after it. -/
def Script.next? {α : Type} : Script α → Option (α × Script α)
  | [] => none
  | [a] => some (a, [a])
  | a :: b :: rest => some (a, b :: rest)

/-- A death that is to come. -/
structure Death where
  /-- The milliseconds until then. -/
  after : Nat
  /-- The exit code, if there is one. -/
  code : Option Int
  deriving DecidableEq, Repr

/-- What an interrupt does to a process. -/
inductive Interruption where
  | dies (death : Death)
  | ignored
  | refused
  | unsupported
  deriving DecidableEq, Repr

/-- The part of a process. -/
structure ProcessPart where
  /-- How it dies by itself, if it does. -/
  ownDeath : Option Death
  /-- How often it is not seen running at first. -/
  hidden : Nat
  /-- What the console command to quit does, if anything. -/
  quit : Option Death
  /-- The answer to that command, if there is one. -/
  quitAnswer : Option String
  interruption : Interruption
  /-- Whether it can be ended. -/
  isMortal : Bool
  deriving DecidableEq, Repr

/-- What comes of starting a process. -/
inductive Casting where
  | fails (why : String)
  | succeeds (part : ProcessPart)
  deriving DecidableEq, Repr

/-- What the surroundings do at a moment of their own. -/
inductive Action where
  | crash (code : Option Int)
  | connect (isOpen : Bool)
  | failSends (why : Option String)
  | answerQueries (answers : Script (Option String))
  | cast (castings : Script Casting)
  | deliver (frame : String)
  | write (path : String) (node : FileNode)
  | requestStop
  | emit (signals : Signals)

/-- The name of an action among the events. -/
def Action.name : Action → String
  | .crash _ => "crash"
  | .connect _ => "state"
  | .failSends _ => "fail_sends"
  | .answerQueries _ => "serverinfo"
  | .cast _ => "spawns"
  | .deliver _ => "deliver"
  | .write .. => "write"
  | .requestStop => "stop"
  | .emit _ => "emit"

end ServerWarden.Rehearsal
