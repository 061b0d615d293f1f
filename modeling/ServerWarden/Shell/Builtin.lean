/-
# Commands without programs

What a command does that needs no other script: the commands of the shell itself, and the tools of
the system.  Each gets its arguments without its name and leaves a status, zero for success.
-/
import ServerWarden.Archive.Tar
import ServerWarden.Files.System
import ServerWarden.Shell.Printf
import ServerWarden.Shell.State
import ServerWarden.Time.Phrase

namespace ServerWarden.Shell

/-! ## 1. Tests -/

def intArg (s : String) : Int := (s.toInt?).getD 0

/-- Whether a test holds. -/
def holds (s : State) : List String → Bool
  | [] => false
  | ["!"] => true
  | [t] => !t.isEmpty
  | "!" :: rest => !(holds s rest)
  | [op, a] =>
    match op with
    | "-n" => !a.isEmpty
    | "-z" => a.isEmpty
    | "-e" => s.files.has a
    | "-f" => s.files.isFile a
    | "-d" => s.files.isDirectory a
    | "-s" => (s.files.read a).toOption.any fun b => !b.isEmpty
    | "-r" | "-w" => s.files.has a
    | "-x" =>
      match s.files.find a with
      | .ok (.file _ isExecutable) => isExecutable
      | .ok _ => true
      | .error _ => false
    | _ => false
  | [a, op, b] =>
    match op with
    | "=" | "==" => a == b
    | "!=" => a != b
    | "-eq" => intArg a == intArg b
    | "-ne" => intArg a != intArg b
    | "-lt" => decide (intArg a < intArg b)
    | "-le" => decide (intArg a ≤ intArg b)
    | "-gt" => decide (intArg b < intArg a)
    | "-ge" => decide (intArg b ≤ intArg a)
    | _ => false
  | _ => false

def ofTest (b : Bool) : Nat := if b then 0 else 1

/-! ## 2. Signals -/

/-- The number of a signal by its name or number. -/
def signalNumber? (s : String) : Option Nat :=
  match s with
  | "EXIT" => some 0
  | "HUP" | "SIGHUP" => some 1
  | "INT" | "SIGINT" => some 2
  | "QUIT" | "SIGQUIT" => some 3
  | "KILL" | "SIGKILL" => some 9
  | "USR1" | "SIGUSR1" => some 10
  | "USR2" | "SIGUSR2" => some 12
  | "TERM" | "SIGTERM" => some 15
  | _ => s.toNat?

/-- The signal that is sent where none is named. -/
def defaultSignal : Nat := 15

/-- Sends a signal to the script itself; other targets are not there. -/
def sendSelf (s : State) (signal : Nat) (target : String) : State :=
  let own := toString s.number
  if target ≠ own ∧ target ≠ "-" ++ own ∧ target ≠ "0" then s.complain "kill: no such process" 1
  else if signal = 0 then s.yield 0
  else if signal = 9 then s.stop (.ended (.signaled 9))
  else
    match s.handlers.lookup signal with
    | none => s.stop (.ended (.signaled signal))
    | some "" => s.yield 0
    | some _ => { s with signals := (s.now, signal) :: s.signals }.yield 0

def kill (s : State) : List String → State
  | "-s" :: name :: targets => sendAll ((signalNumber? name).getD defaultSignal) targets
  | option :: targets =>
    match option.toList with
    | '-' :: name =>
      match signalNumber? (String.ofList name), targets with
      | some signal, _ :: _ => sendAll signal targets
      | _, _ => sendAll defaultSignal (option :: targets)
    | _ => sendAll defaultSignal (option :: targets)
  | [] => s.complain "kill: no target" 2
where
  sendAll (signal : Nat) (targets : List String) : State :=
    targets.foldl (fun s t => if s.ending.isSome then s else sendSelf s signal t) s

/-- Sets the commands for signals. -/
def trap (s : State) : List String → State
  | commands :: signals =>
    let numbers := signals.filterMap signalNumber?
    let others := s.handlers.filter fun h => !numbers.contains h.1
    let handlers := if commands = "-" then others else numbers.map (·, commands) ++ others
    { s with handlers }.yield 0
  | [] => s.yield 0

/-! ## 3. Input and output -/

/-- What `echo` prints. -/
def echoText : List String → String
  | "-n" :: args => expand args
  | args => expand args ++ "\n"
where
  expand (args : List String) : String :=
    let text := " ".intercalate args
    String.ofList (unescape text.length text.toList)

/-- Reads a line of the input into variables; the last gets what is left of it. -/
def read (s : State) (names : List String) : State :=
  let names := names.filter fun n => n ≠ "-r"
  let line := s.input.takeWhile (· ≠ 10)
  let isWhole := line.length < s.input.length
  let s := { s with input := s.input.drop (line.length + 1) }
  let words := (Text.Utf8.decodeLossy line).splitOn " " |>.filter fun w => !w.isEmpty
  (assign s names words).yield (ofTest isWhole)
where
  assign (s : State) : List String → List String → State
    | [], _ => s
    | [name], words => s.set name (" ".intercalate words)
    | name :: names, words => assign (s.set name (words.headD "")) names words.tail

/-- Prints files, or the input. -/
def cat (s : State) (args : List String) : State :=
  if args.isEmpty then { s.writeBytes 1 s.input with input := [] }.yield 0
  else
    args.foldl (fun s path =>
      if path = "-" then { s.writeBytes 1 s.input with input := [] }
      else if path = State.voidPath then s
      else
        match s.files.read path with
        | .ok bytes => s.writeBytes 1 bytes
        | .error e => s.complain s!"cat: {path}: {e.words}" 1) (s.yield 0)

/-! ## 4. Files -/

/-- Does something with each path, and fails if one of them fails. -/
def eachPath (s : State) (name : String) (f : FileTree → String → Except SystemError FileTree)
    (paths : List String) : State :=
  paths.foldl (fun s path =>
    match f s.files path with
    | .ok files => { s with files }
    | .error e => s.complain s!"{name}: {path}: {e.words}" 1) (s.yield 0)

def touch (files : FileTree) (path : String) : Except SystemError FileTree :=
  if files.has path then .ok files else files.write path []

/-- Makes one directory. -/
def makeDirectory (files : FileTree) (path : String) : Except SystemError FileTree := do
  let p ← files.resolve path
  match files.at? p, files.at? p.dropLast with
  | some _, _ => .error .alreadyExists
  | none, some .directory => .ok (files.put p .directory)
  | none, some _ => .error .notDirectory
  | none, none => .error .notFound

/-- Removes a directory with all below it. -/
def removeAll (files : FileTree) (path : String) : Except SystemError FileTree := do
  let p ← files.resolve path
  .ok { files with nodes := files.nodes.filter fun e => !p.isPrefixOf e.1 }

def remove (s : State) (args : List String) : State :=
  let options := args.takeWhile fun a => a.startsWith "-"
  let paths := args.drop options.length
  let isDeep := options.any fun o => o.toList.contains 'r'
  let isQuiet := options.any fun o => o.toList.contains 'f'
  let paths := if isQuiet then paths.filter s.files.has else paths
  eachPath s "rm" (if isDeep then removeAll else FileTree.remove) paths

/-- Changes the working directory. -/
def changeDirectory (s : State) (path : String) : State :=
  match s.files.resolve path with
  | .ok p =>
    if s.files.at? p = some .directory then
      { s with files := { s.files with workingDir := p } }.yield 0
    else s.complain s!"cd: can't cd to {path}" 2
  | .error _ => s.complain s!"cd: can't cd to {path}" 2

def workingDirectory (s : State) : String := "/" ++ "/".intercalate s.files.workingDir

/-- Unpacks a compressed archive. -/
def tar (s : State) : List String → State
  | ["-xzf", archive, "-C", directory] =>
    if !s.files.isDirectory directory then
      s.complain s!"tar: {directory}: Cannot open: No such file or directory" 2
    else
      match s.files.read archive with
      | .error e => s.complain s!"tar: {archive}: Cannot open: {e.words}" 2
      | .ok bytes =>
        let (files, isWell) := Archive.unpack s.files bytes directory
        { s with files }.yield (if isWell then 0 else 2)
  | _ => s.complain "tar: cannot do that" 2

/-! ## 5. Time -/

/-- The time that `sleep` is asked for, in seconds with a fraction. -/
def sleepTime (text : String) : Duration :=
  let whole := text.toList.takeWhile Char.isDigit
  let fraction := ((text.toList.drop (whole.length + 1)).takeWhile Char.isDigit).take 9
  let nanos := (String.ofList (fraction ++ List.replicate (9 - fraction.length) '0')).toNat?.getD 0
  ⟨((String.ofList whole).toNat?.getD 0) * 1000000000 + nanos⟩

def sleep (s : State) (args : List String) : State :=
  let total := args.foldl (fun d a => d + sleepTime a) Duration.zero
  (s.yield 0).pass (s.now.add total)

/-- Waits for one of the scripts beside this one. -/
def await (s : State) (b : Background) : State :=
  match b.finish with
  | some (moment, status) => (s.yield status).pass (if s.now < moment then moment else s.now)
  | none =>
    match s.horizon with
    | some h => s.pass (h.add State.commandTime)
    | none => s.stop .suspended

/-- Waits for those with the given numbers, or for all. -/
def wait (s : State) (args : List String) : State :=
  if args.isEmpty then
    let s := s.background.foldl (fun s b => if s.ending.isSome then s else await s b) s
    s.yield 0
  else
    args.foldl (fun s a =>
      match s.background.find? fun b => toString b.number = a with
      | some b => if s.ending.isSome then s else await s b
      | none => s.yield 127) s

/-! ## 6. Names -/

/-- A tool that is no shell. -/
def runTool (s : State) (tool : Tool) (args : List String) : State :=
  match tool with
  | .cat => cat s args
  | .echo => (s.write 1 (echoText args)).yield 0
  | .mkdir =>
    if args.head? = some "-p" then eachPath s "mkdir" FileTree.makeDirectories args.tail
    else eachPath s "mkdir" makeDirectory args
  | .printf => (s.write 1 (printf (args.headD "") args.tail)).yield 0
  | .remove => remove s args
  | .sleep => sleep s args
  | .succeed => s.yield 0
  | .fail => s.yield 1
  | .tar => tar s args
  | .touch => eachPath s "touch" touch args
  | .shell => s

/-- A command of the shell itself, if the name is one. -/
def runBuiltin? (s : State) (name : String) (args : List String) : Option State :=
  match name with
  | ":" | "true" => some (s.yield 0)
  | "false" => some (s.yield 1)
  | "echo" => some (runTool s .echo args)
  | "printf" => some (runTool s .printf args)
  | "exit" =>
    let code := match args with
      | a :: _ => (a.toNat?).getD 2
      | [] => s.status
    some (s.stop (.ended (.exited (code % 256))))
  | "test" => some (s.yield (ofTest (holds s args)))
  | "[" =>
    some (if args.getLast? = some "]" then s.yield (ofTest (holds s args.dropLast))
      else s.complain "[: missing ]" 2)
  | "read" => some (read s args)
  | "pwd" => some ((s.write 1 (workingDirectory s ++ "\n")).yield 0)
  | "cd" => some (changeDirectory s (args.headD "/"))
  | "kill" => some (kill s args)
  | "trap" => some (trap s args)
  | "shift" =>
    let count := (args.head?.bind String.toNat?).getD 1
    some ({ s with arguments := s.arguments.drop count }.yield 0)
  | "export" | "readonly" =>
    some ((args.foldl (fun s a =>
      match a.splitOn "=" with
      | name :: value :: more => s.set name ("=".intercalate (value :: more))
      | _ => s) s).yield 0)
  | "unset" => some ({ s with bindings := args.foldl NameMap.erase s.bindings }.yield 0)
  | "wait" => some (wait s args)
  | "set" | "umask" => some (s.yield 0)
  | _ => none

end ServerWarden.Shell
