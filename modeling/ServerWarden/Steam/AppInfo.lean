/-
# Builds of the server

The server's build is named in two places: in the manifest of the install, and in the tree that the
update tool prints among other things.  That tree starts at a line that begins with the quoted
application number and ends at the first line that begins with a closing brace.
-/
import ServerWarden.Fault
import ServerWarden.Files.Tree
import ServerWarden.KeyValues.Tree
import ServerWarden.Log
import ServerWarden.Text.Line

namespace ServerWarden.Steam

/-- The number of the server's application. -/
def appId : String := "258550"

/-- Where an install keeps its manifest. -/
def manifestPath (installPath : String) : String :=
  Path.join (Path.join installPath "steamapps") s!"appmanifest_{appId}.acf"

/-- The text that a path of keys leads to in a file. -/
def readValue (files : FileTree) (path keyPath : String) : Except Fault (Option String) :=
  match files.readText path with
  | .error e => .error (.file e)
  | .ok text =>
    match KeyValues.parse text with
    | .error e => .error (.manifest e)
    | .ok tree => .ok (tree.getPath? keyPath)

/-- The build that is installed. -/
def installedBuild (files : FileTree) (installPath : String) : Logged (Option String) := do
  let path := manifestPath installPath
  match readValue files path "AppState.buildid" with
  | .ok (some build) => return some build
  | .ok none =>
    Logged.say .warn .steam s!"No AppState.buildid in app manifest {path}"
    return none
  | .error e =>
    Logged.say .warn .steam s!"Failed to read app manifest {path}: {e.message}"
    return none

/-- The branch that is installed, nothing for the public one. -/
def installedBranch (files : FileTree) (installPath : String) : Option String :=
  match readValue files (manifestPath installPath) "AppState.UserConfig.BetaKey" with
  | .ok (some branch) => if branch.isEmpty then none else some branch
  | _ => none

/-- What the first line of the tree begins with. -/
def treeMark : List Char := '"' :: appId.toList ++ ['"']

/-- The lines up to the first that begins with a closing brace, which is the last. -/
def upToBrace? : List (List Char) → Option (List (List Char))
  | [] => none
  | line :: rest =>
    if line.head? = some '\x7d' then some [line] else (upToBrace? rest).map (line :: ·)

/-- The tree of the application in the output of the update tool. -/
def appInfo? (output : String) : Option String :=
  let lines := (Text.lineChars output.toList).filter fun line => !line.isEmpty
  match lines.dropWhile fun line => !treeMark.isPrefixOf line with
  | [] => none
  | first :: rest =>
    (upToBrace? rest).map fun body =>
      String.ofList ((first :: body).flatMap fun line => line ++ ['\n'])

/-- The branch of a server that has not chosen one. -/
def publicBranch : String := "public"

/-- The latest build of a branch, by default the public one. -/
def latestBuild (appInfo : String) (branch : Option String) : Except Fault (Option String) :=
  match KeyValues.parse appInfo with
  | .error e => .error (.manifest e)
  | .ok tree =>
    let branch := branch.getD publicBranch
    .ok (tree.getPath? s!"{appId}.depots.branches.{branch}.buildid")

/-- The arguments that make the update tool install or repair the server. -/
def installArgs (installPath : String) (branch : Option String) : List String :=
  ["+force_install_dir", installPath, "+login", "anonymous", "+app_update", appId] ++
    (match branch with
      | some b => ["-beta", b]
      | none => []) ++
    ["validate", "+quit"]

/-- The script that makes the update tool print the tree of the application. -/
def infoScript (installPath : String) : String :=
  "force_install_dir \"" ++ installPath ++ "\"\nlogin anonymous\napp_info_update 1\n" ++
    "app_info_print " ++ appId ++ "\nquit\n"

end ServerWarden.Steam
