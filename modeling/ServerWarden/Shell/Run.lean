/-
# Running scripts

`run` does a job of a script as far as it gets: a command, the commands for a signal, or another
program.  `execute` starts a program the way the system does, and watches it up to a horizon.  As a
script does the same in the same surroundings, watching it again up to a later horizon goes on where
the first look ended.
-/
import ServerWarden.Shell.Builtin
import ServerWarden.Shell.Reader

namespace ServerWarden.Shell

/-! ## 1. Finding programs -/

/-- The directories that are searched where no search path is given. -/
def defaultSearchPath : String := "/bin:/usr/bin"

/-- A program as the system finds it: a tool, with the arguments that come before those given. -/
structure Loaded where
  tool : Tool
  arguments : List String

/-- The first line of a script, after its mark. -/
def interpreterLine? (bytes : List UInt8) : Option String :=
  match bytes with
  | 35 :: 33 :: rest => some (Text.trim (Text.Utf8.decodeLossy (rest.takeWhile (· ≠ 10))))
  | _ => none

/-- Finds what runs a file.  `fuel` bounds the number of interpreters. -/
def load? (files : FileTree) : Nat → String → Except SystemError Loaded
  | 0, _ => .error .execFormat
  | fuel + 1, path => do
    match ← files.find path with
    | .directory => .error .permissionDenied
    | .tool t => .ok ⟨t, []⟩
    | .file bytes isExecutable =>
      if !isExecutable then .error .permissionDenied
      else
        match interpreterLine? bytes with
        | none => .error .execFormat
        | some line =>
          let name := line.toList.takeWhile fun c => !State.isBlankChar c
          let option := Text.trim (String.ofList (line.toList.drop name.length))
          let loaded ← load? files fuel (String.ofList name)
          let options := if option.isEmpty then [] else [option]
          .ok { loaded with arguments := loaded.arguments ++ options ++ [path] }

/-- The most interpreters that run each other. -/
def interpreterLimit : Nat := 5

/-- Finds a program: a name with a slash is a path, any other is searched for.  Of the files that
are found but cannot be run the first one counts. -/
def find? (files : FileTree) (searchPath : String) (name : String) :
    Except SystemError (String × Loaded) :=
  if name.toList.contains '/' then (load? files interpreterLimit name).map (name, ·)
  else if name.isEmpty then .error .notFound
  else
    search ((searchPath.splitOn ":").map fun dir => Path.join dir name) none
where
  search : List String → Option SystemError → Except SystemError (String × Loaded)
    | [], refused => .error (refused.getD .notFound)
    | path :: rest, refused =>
      match load? files interpreterLimit path with
      | .ok loaded => .ok (path, loaded)
      | .error .permissionDenied => search rest (some (refused.getD .permissionDenied))
      | .error .notFound | .error .notDirectory => search rest refused
      | .error e => .error e

/-! ## 2. Running -/

inductive Job where
  | command (c : Command)
  /-- The commands in a text. -/
  | commands (text : String)
  /-- A program with its name and arguments. -/
  | program (loaded : Loaded) (name : String) (arguments : List String)

/-- The status of a script that cannot be read. -/
def malformedStatus : Nat := 2

/-- The search path of a script. -/
def searchPathOf (s : State) : String := (s.bindings.find? "PATH").getD defaultSearchPath

/-- Gives variables the values of words. -/
def assign? (s : State) (as : List (String × Word)) : Option State :=
  as.foldlM (fun s (name, w) => (s.text? w).map fun value => (s.set name value).yield 0) s

/-- The signals that stay ignored in a script that another starts. -/
def ignored (s : State) : List (Nat × String) := s.handlers.filter fun h => h.2.isEmpty

/-- A script that another starts. -/
def child (s : State) (name : String) (arguments : List String) : State :=
  { s with
    bindings := s.bindings.filter fun v => v.1 = "PATH"
    arguments, name
    number := s.number + 1
    status := 0
    handlers := ignored s
    background := [] }

/-- The signals that a script in the background ignores in any case. -/
def backgroundIgnored : List (Nat × String) := [(2, ""), (3, "")]

/-- A script in the background. -/
def besides (s : State) : State :=
  { s with handlers := backgroundIgnored ++ ignored s, input := [], background := [] }

/-- Goes on beside a script in the background. -/
def afterBesides (s ended : State) : State :=
  let finish : Option (Instant × Nat) :=
    match ended.ending with
    | none => some (ended.now, ended.status)
    | some .suspended => none
    | some (.ended (.exited code)) => some (ended.now, code)
    | some (.ended (.signaled signal)) => some (ended.now, 128 + signal)
  let number := s.number + s.background.length + 1
  { s with
    files := { ended.files with workingDir := s.files.workingDir }
    output := ended.output
    errors := ended.errors
    background := ⟨number, finish⟩ :: s.background }.yield 0

/-- Goes on after a script that was started has ended, or stops with it. -/
def afterChild (s ended : State) : State :=
  let s := { s with
    files := { ended.files with workingDir := s.files.workingDir }
    now := ended.now
    signals := ended.signals
    input := ended.input
    output := ended.output
    errors := ended.errors }
  match ended.ending with
  | none => s.yield ended.status
  | some .suspended => s.stop .suspended
  | some (.ended (.exited code)) => s.yield code
  | some (.ended (.signaled signal)) => s.yield (128 + signal)

/-- Runs a job.  `fuel` bounds the steps; a script that uses it up is suspended. -/
def run : Nat → Job → State → State
  | 0, _, s => s.stop .suspended
  | fuel + 1, job, s =>
    if s.ending.isSome then s
    else
      match job with
      | .commands text =>
        match script? text with
        | some c => run fuel (.command c) s
        | none => s.complain "syntax error" malformedStatus
      | .program loaded name args =>
        match loaded.tool with
        | .shell =>
          let inner (text name : String) (args : List String) :=
            afterChild s (finish fuel (run fuel (.commands text) (child s name args)))
          match loaded.arguments ++ args with
          | "-c" :: text :: rest => inner text (rest.headD name) rest.tail
          | path :: rest =>
            match s.files.readText path with
            | .ok text => inner text path rest
            | .error _ => s.complain s!"sh: cannot open {path}" 2
          | [] => inner (Text.Utf8.decodeLossy s.input) name []
        | tool => runTool s tool (loaded.arguments ++ args)
      | .command c =>
        match c with
        | .nothing => s
        | .sequence a b => run fuel (.command b) (run fuel (.command a) s)
        | .both a b =>
          let s := run fuel (.command a) s
          if s.status = 0 then run fuel (.command b) s else s
        | .either a b =>
          let s := run fuel (.command a) s
          if s.status = 0 then s else run fuel (.command b) s
        | .invert a =>
          let s := run fuel (.command a) s
          s.yield (ofTest (s.status ≠ 0))
        | .choose test yes no =>
          let s := run fuel (.command test) s
          if s.status = 0 then run fuel (.command yes) s else run fuel (.command no) (s.yield 0)
        | .whilst wanted test body =>
          let s := run fuel (.command test) s
          if (s.status == 0) == wanted then
            run fuel (.command (.whilst wanted test body)) (run fuel (.command body) s)
          else s.yield 0
        | .each name words body =>
          match s.allFields? words with
          | none => s.stop (.ended (.exited malformedStatus))
          | some fields =>
            fields.foldl (fun s field => run fuel (.command body) (s.set name field)) (s.yield 0)
        | .group body redirections =>
          match s.open? redirections with
          | none => s.complain "cannot redirect" 2
          | some inner => (run fuel (.command body) inner).restore s
        | .aside body =>
          let inner := { s with handlers := ignored s, background := [] }
          afterChild s (finish fuel (run fuel (.command body) inner))
        | .background body =>
          afterBesides s (finish fuel (run fuel (.command body) (besides s)))
        | .simple assignments words redirections =>
          match s.takeHandler? with
          | some (text, s) => run fuel (.command c) (handled s (run fuel (.commands text) s))
          | none =>
            let s := s.pass (s.now.add State.commandTime)
            if s.ending.isSome then s
            else
              match s.allFields? words, s.open? redirections with
              | none, _ => s.stop (.ended (.exited malformedStatus))
              | _, none => s.complain "cannot redirect" 2
              | some [], some inner =>
                match assign? inner assignments with
                | some s' => s'.restore s
                | none => s.stop (.ended (.exited malformedStatus))
              | some (name :: args), some inner =>
                match assign? inner assignments with
                | none => s.stop (.ended (.exited malformedStatus))
                | some inner =>
                  let done :=
                    match runBuiltin? inner name args with
                    | some after => after
                    | none =>
                      match find? inner.files (searchPathOf inner) name with
                      | .ok (path, loaded) => run fuel (.program loaded path args) inner
                      | .error .notFound => inner.complain s!"{name}: not found" 127
                      | .error _ => inner.complain s!"{name}: Permission denied" 126
                  done.restore s
where
  /-- The state after the commands for a signal, with the status of before. -/
  handled (before after : State) : State := after.yield before.status
  /-- Runs the commands for signals that have come, and those for the end. -/
  finish (fuel : Nat) (s : State) : State :=
    match fuel with
    | 0 => s
    | fuel + 1 =>
      match s.ending, s.takeHandler?, s.handlers.lookup 0 with
      | none, some (text, s), _ => finish fuel (run fuel (.commands text) s)
      | none, none, some text =>
        let s := { s with handlers := s.handlers.filter fun h => h.1 ≠ 0 }
        handled s (run fuel (.commands text) s)
      | some (.ended (.exited code)), _, some text =>
        let s := { s with handlers := s.handlers.filter fun h => h.1 ≠ 0, ending := none }
        let after := run fuel (.commands text) s
        if after.ending.isSome then after else after.stop (.ended (.exited code))
      | _, _, _ => s

/-! ## 3. Programs as the system starts them -/

/-- The most steps of a program. -/
def stepLimit : Nat := 1000000

/-- What came of a program up to the horizon. -/
structure Outcome where
  /-- How it ended, if it did. -/
  status : Option ExitStatus
  /-- When it ended or was suspended. -/
  time : Instant
  files : FileTree
  output : List UInt8

/-- The surroundings that a program is started in. -/
structure Setting where
  files : FileTree
  searchPath : Option String
  start : Instant
  horizon : Option Instant
  signals : List (Instant × Nat)

/-- Starts a program and watches it. -/
def execute (e : Setting) (program : String) (args : List String) : Except SystemError Outcome := do
  let (path, loaded) ← find? e.files (e.searchPath.getD defaultSearchPath) program
  let s : State := {
    files := e.files
    bindings := match e.searchPath with
      | some p => NameMap.insert "PATH" p []
      | none => []
    arguments := []
    name := path
    number := 4242
    status := 0
    now := e.start
    horizon := e.horizon
    signals := e.signals
    handlers := []
    background := []
    sinks := [(1, .output), (2, .errors)]
    input := []
    output := #[]
    errors := #[]
    ending := none }
  let s := outermost loaded path args (s.pass (s.now.add State.commandTime))
  let status := match s.ending with
    | none => some (.exited (s.status % 256))
    | some (.ended status) => some status
    | some .suspended => none
  .ok ⟨status, s.now, s.files, s.output.toList⟩
where
  /-- Runs a program that no other script waits for. -/
  outermost (loaded : Loaded) (path : String) (args : List String) (s : State) : State :=
    match loaded.tool, loaded.arguments ++ args with
    | .shell, "-c" :: text :: rest =>
      run.finish stepLimit (run stepLimit (.commands text)
        { s with name := rest.headD path, arguments := rest.tail })
    | .shell, script :: rest =>
      match s.files.readText script with
      | .ok text =>
        let s := { s with name := script, arguments := rest }
        run.finish stepLimit (run stepLimit (.commands text) s)
      | .error _ => s.yield 2
    | _, _ => run stepLimit (.program loaded path args) s

end ServerWarden.Shell
