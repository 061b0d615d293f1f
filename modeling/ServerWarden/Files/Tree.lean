/-
# A file tree

The files a run can see, as a value.  A place is the list of steps from the root.  Reading, writing
and removing take a path as text, walk it step by step from the working directory, and fail the way
an operating system fails: a missing step, a step that is no directory, a directory where a file is
wanted.  A tool is a program that belongs to the system and is known by name only.
-/
import ServerWarden.Files.Error
import ServerWarden.Files.Path
import ServerWarden.Text.Utf8

namespace ServerWarden

/-- The programs that belong to the system. -/
inductive Tool where
  | cat | echo | mkdir | printf | remove | shell | sleep | succeed | fail | tar | touch
  deriving DecidableEq, Repr

/-- What stands at a place. -/
inductive FileNode where
  | directory
  | file (bytes : List UInt8) (executable : Bool)
  | tool (tool : Tool)
  deriving DecidableEq, Repr

/-- The steps from the root to a place. -/
abbrev Place := List String

/-- A file tree with a working directory.  The root is always a directory. -/
structure FileTree where
  nodes : List (Place × FileNode)
  workingDir : Place

namespace FileTree

def at? (t : FileTree) (p : Place) : Option FileNode :=
  if p.isEmpty then some .directory else t.nodes.lookup p

/-- Puts a node at a place, in place of what was there. -/
def put (t : FileTree) (p : Place) (n : FileNode) : FileTree :=
  { t with nodes := (p, n) :: t.nodes.filter fun e => e.1 != p }

def erase (t : FileTree) (p : Place) : FileTree :=
  { t with nodes := t.nodes.filter fun e => e.1 != p }

/-- The most bytes that one step may have. -/
def stepLimit : Nat := 255

/-- Walks steps from a place.  Each place that is left must be a directory; the last need not
exist. -/
def walk (t : FileTree) (p : Place) : List String → Except SystemError Place
  | [] => .ok p
  | step :: rest =>
    match t.at? p with
    | none => .error .notFound
    | some .directory =>
      if step = "" ∨ step = "." then walk t p rest
      else if step = ".." then walk t p.dropLast rest
      else if stepLimit < step.utf8ByteSize then .error .nameTooLong
      else walk t (p ++ [step]) rest
    | some _ => .error .notDirectory

/-- The place that a path names. -/
def resolve (t : FileTree) (path : String) : Except SystemError Place :=
  if path.isEmpty then .error .notFound
  else if path.toList.contains '\x00' then .error .invalidArgument
  else t.walk (if Path.isAbsolute path then [] else t.workingDir) (Path.steps path)

/-- What stands at a path. -/
def find (t : FileTree) (path : String) : Except SystemError FileNode := do
  match t.at? (← t.resolve path) with
  | some n => .ok n
  | none => .error .notFound

def has (t : FileTree) (path : String) : Bool :=
  match t.find path with
  | .ok _ => true
  | .error _ => false

def isDirectory (t : FileTree) (path : String) : Bool :=
  match t.find path with
  | .ok .directory => true
  | _ => false

def isFile (t : FileTree) (path : String) : Bool :=
  match t.find path with
  | .ok .directory => false
  | .ok _ => true
  | .error _ => false

/-- The bytes of a file. -/
def read (t : FileTree) (path : String) : Except SystemError (List UInt8) := do
  match ← t.find path with
  | .file bytes _ => .ok bytes
  | .tool _ => .ok []
  | .directory => .error .isDirectory

/-- The text of a file. -/
def readText (t : FileTree) (path : String) : Except FileError String :=
  match t.read path with
  | .error e => .error (.system e)
  | .ok bytes =>
    match Text.Utf8.decode? bytes with
    | some s => .ok s
    | none => .error .notText

/-- Writes a file, in place of the one that was there. -/
def write (t : FileTree) (path : String) (bytes : List UInt8) : Except SystemError FileTree := do
  let p ← t.resolve path
  match t.at? p, t.at? p.dropLast with
  | some .directory, _ => .error .isDirectory
  | some (.file _ executable), _ => .ok (t.put p (.file bytes executable))
  | some (.tool _), _ => .error .permissionDenied
  | none, some .directory => .ok (t.put p (.file bytes false))
  | none, some _ => .error .notDirectory
  | none, none => .error .notFound

/-- Removes a file. -/
def remove (t : FileTree) (path : String) : Except SystemError FileTree := do
  let p ← t.resolve path
  match t.at? p with
  | none => .error .notFound
  | some .directory => .error .isDirectory
  | some _ => .ok (t.erase p)

/-- Makes the directories on the way along steps, as far as they are missing. -/
def makeSteps (t : FileTree) (p : Place) : List String → Except SystemError FileTree
  | [] => .ok t
  | step :: rest =>
    if step = "" ∨ step = "." then makeSteps t p rest
    else if step = ".." then makeSteps t p.dropLast rest
    else
      let p := p ++ [step]
      match t.at? p with
      | none => makeSteps (t.put p .directory) p rest
      | some .directory => makeSteps t p rest
      | some _ => .error (if rest.all (· = "") then .alreadyExists else .notDirectory)

/-- Makes a directory and those above it, as far as they are missing. -/
def makeDirectories (t : FileTree) (path : String) : Except SystemError FileTree :=
  if path.isEmpty then .ok t
  else t.makeSteps (if Path.isAbsolute path then [] else t.workingDir) (Path.steps path)

/-- The first file of a name in the directories of a search path.  An empty directory name in the
list stands for the working directory. -/
def search? (t : FileTree) (searchPath : String) (name : String) : Option String :=
  let dirs := (searchPath.splitOn ":").map fun dir => Path.join dir name
  dirs.find? t.isFile

end FileTree
end ServerWarden
