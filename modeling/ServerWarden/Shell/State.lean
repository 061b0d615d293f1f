/-
# A running script

What a script has while it runs: files, variables, arguments, streams, and a clock.  A script that
is watched up to a horizon is suspended there.  Signals that come to its process group are known
beforehand, each with its moment; a script may ignore one or have commands for it, and otherwise it
ends there.
-/
import ServerWarden.Child.Status
import ServerWarden.Files.Tree
import ServerWarden.NameMap
import ServerWarden.Shell.Formula
import ServerWarden.Shell.Syntax
import ServerWarden.Time.Duration

namespace ServerWarden.Shell

/-- Where a stream leads. -/
inductive Sink where
  | output
  | errors
  | file (place : Place)
  | nowhere
  deriving DecidableEq, Repr

/-- A script that was not waited for: its number, and when and with which status it ended if it did.
-/
structure Background where
  number : Nat
  finish : Option (Instant × Nat)

/-- How a script stands when it does not go on. -/
inductive Ending where
  | ended (status : ExitStatus)
  /-- The horizon was reached. -/
  | suspended
  deriving DecidableEq, Repr

structure State where
  /-- The files; their working directory is that of the script. -/
  files : FileTree
  /-- The values of the variables. -/
  bindings : NameMap String
  arguments : List String
  /-- The name that the script was started by. -/
  name : String
  number : Nat
  /-- The status of the last command. -/
  status : Nat
  now : Instant
  horizon : Option Instant
  /-- The signals to come, the earliest first. -/
  signals : List (Instant × Nat)
  /-- The commands for signals; none means that the signal is ignored. -/
  handlers : List (Nat × String)
  /-- The scripts that run beside this one, the latest first. -/
  background : List Background
  sinks : List (Nat × Sink)
  input : List UInt8
  output : Array UInt8
  errors : Array UInt8
  ending : Option Ending

namespace State

def set (s : State) (name value : String) : State :=
  { s with bindings := s.bindings.insert name value }

def yield (s : State) (status : Nat) : State := { s with status }

def stop (s : State) (e : Ending) : State := { s with ending := some e }

/-! ## 1. Streams -/

def sink (s : State) (stream : Nat) : Sink := (s.sinks.lookup stream).getD .nowhere

/-- Writes bytes to a stream. -/
def writeBytes (s : State) (stream : Nat) (bytes : List UInt8) : State :=
  match s.sink stream with
  | .output => { s with output := s.output ++ bytes.toArray }
  | .errors => { s with errors := s.errors ++ bytes.toArray }
  | .nowhere => s
  | .file p =>
    match s.files.at? p with
    | some (.file old isExecutable) =>
      { s with files := s.files.put p (.file (old ++ bytes) isExecutable) }
    | _ => s

def write (s : State) (stream : Nat) (text : String) : State :=
  s.writeBytes stream (Text.Utf8.encode text)

/-- Says why a command fails. -/
def complain (s : State) (text : String) (status : Nat) : State :=
  (s.write 2 (text ++ "\n")).yield status

/-- The file that swallows everything. -/
def voidPath : String := "/dev/null"

/-- Leads a stream to a file, emptied first unless it is kept. -/
def redirect? (s : State) (stream : Nat) (path : String) (isKept : Bool) : Option State :=
  if path = voidPath then some { s with sinks := (stream, .nowhere) :: s.sinks }
  else
    let old := if isKept then (s.files.read path).toOption.getD [] else []
    match s.files.write path old, s.files.resolve path with
    | .ok files, .ok p => some { s with files, sinks := (stream, .file p) :: s.sinks }
    | _, _ => none

/-- Takes the input from a file. -/
def readFrom? (s : State) (path : String) : Option State :=
  if path = voidPath then some { s with input := [] }
  else
    match s.files.read path with
    | .ok input => some { s with input }
    | .error _ => none

/-! ## 2. Words -/

/-- The value of a parameter. -/
def parameter (s : State) (name : String) : String :=
  match name with
  | "?" => toString s.status
  | "$" => toString s.number
  | "!" => (s.background.head?.map fun b => toString b.number).getD ""
  | "#" => toString s.arguments.length
  | "0" => s.name
  | _ =>
    match name.toNat? with
    | some n => (s.arguments[n - 1]?).getD ""
    | none => (s.bindings.find? name).getD ""

/-- The number that a variable stands for. -/
def number? (s : State) (name : String) : Int := ((s.parameter name).toInt?).getD 0

def isBlankChar (c : Char) : Bool := c = ' ' || c = '\t' || c = '\n'

/-- Fields in the making: those that are complete, and the one that grows, if there is one. -/
structure Fields where
  complete : List String
  growing : Option String

namespace Fields

def none : Fields := ⟨[], Option.none⟩

def grow (f : Fields) (text : String) : Fields :=
  { f with growing := some (f.growing.getD "" ++ text) }

/-- Ends the field that grows. -/
def cut (f : Fields) : Fields := ⟨f.complete ++ f.growing.toList, Option.none⟩

/-- Adds a text that is cut at blanks. -/
def split (f : Fields) : List Char → Fields
  | [] => f
  | c :: rest =>
    if isBlankChar c then split f.cut rest else split (f.grow (String.singleton c)) rest

/-- Adds texts that stay apart. -/
def spread (f : Fields) : List String → Fields
  | [] => f
  | [text] => f.grow text
  | text :: rest => spread (f.grow text).cut rest

end Fields

/-- Adds what comes of a piece.  A formula without a value gives nothing. -/
def addPiece (s : State) (f : Fields) : Piece → Option Fields
  | .text t _ => some (f.grow t)
  | .parameter name isQuoted =>
    let value := s.parameter name
    some (if isQuoted then f.grow value else f.split value.toList)
  | .arguments isQuoted =>
    some (if isQuoted then f.spread s.arguments
      else s.arguments.foldl (fun f a => (f.split a.toList).cut) f)
  | .formula cs isQuoted =>
    (evaluate? s.number? cs).map fun n =>
      if isQuoted then f.grow (toString n) else f.split (toString n).toList

/-- The fields that a word gives. -/
def fields? (s : State) (w : Word) : Option (List String) :=
  (w.foldlM (fun f p => s.addPiece f p) Fields.none).map fun f => f.cut.complete

def allFields? (s : State) (ws : List Word) : Option (List String) :=
  (ws.mapM s.fields?).map List.flatten

/-- A word as one text. -/
def text? (s : State) (w : Word) : Option String :=
  (w.foldlM (fun f p => s.addPiece f (quoted p)) Fields.none).map fun f =>
    " ".intercalate f.cut.complete
where
  quoted : Piece → Piece
    | .text t _ => .text t true
    | .parameter name _ => .parameter name true
    | .arguments _ => .arguments true
    | .formula cs _ => .formula cs true

/-- Opens redirections in their order. -/
def open? (s : State) : List Redirection → Option State
  | [] => some s
  | r :: rest => do
    let s ← match r with
      | .write stream w => s.redirect? stream (← s.text? w) false
      | .append stream w => s.redirect? stream (← s.text? w) true
      | .read w => s.readFrom? (← s.text? w)
      | .duplicate stream other => some { s with sinks := (stream, s.sink other) :: s.sinks }
    s.open? rest

/-- Takes the streams back that another state had. -/
def restore (s before : State) : State := { s with sinks := before.sinks, input := before.input }

/-! ## 3. Time and signals -/

/-- How long a command takes at least. -/
def commandTime : Duration := .ofMillis 1

/-- Whether a moment is beyond the horizon. -/
def isBeyond (s : State) (time : Instant) : Bool := s.horizon.any fun h => decide (h < time)

/-- Lets time pass up to a moment, unless a signal or the horizon comes first. -/
def pass (s : State) (time : Instant) : State :=
  go s time s.signals.length
where
  go (s : State) (time : Instant) : Nat → State
    | 0 =>
      if s.isBeyond time then s.stop .suspended else { s with now := time }
    | fuel + 1 =>
      match s.signals with
      | [] => if s.isBeyond time then s.stop .suspended else { s with now := time }
      | (moment, signal) :: rest =>
        if time < moment then
          if s.isBeyond time then s.stop .suspended else { s with now := time }
        else if s.isBeyond moment then s.stop .suspended
        else
          let arrival := if s.now < moment then moment else s.now
          match s.handlers.lookup signal with
          | none => { s with now := arrival, signals := rest }.stop (.ended (.signaled signal))
          | some "" => go { s with signals := rest } time fuel
          | some _ => { s with now := arrival }.yield (128 + signal)

/-- The commands for a signal that has come. -/
def takeHandler? (s : State) : Option (String × State) :=
  match s.signals with
  | [] => none
  | (moment, signal) :: rest =>
    if moment ≤ s.now then
      (s.handlers.lookup signal).map fun commands => (commands, { s with signals := rest })
    else none

end State
end ServerWarden.Shell
