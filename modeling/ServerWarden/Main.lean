/-
# The program

Takes a picture of the files that a run looks at, lets `CommandLine` run on it, and prints what
comes of it.  The picture holds files as data and nothing can be started from it, so a run shows
what would be done up to the start of the server, and leaves the machine as it is.
-/
import ServerWarden.CommandLine
import ServerWarden.Files.System

namespace ServerWarden.Main

/-- What stands at a path, as far as reading it tells. -/
def look (path : String) : IO (Option FileNode) := do
  try
    let bytes ← IO.FS.readBinFile path
    return some (.file bytes.toList false)
  catch
    | .inappropriateType .. => return some .directory
    | _ => return none

/-- Adds what stands at some paths to a picture. -/
def picture (files : FileTree) (paths : List String) : IO FileTree :=
  paths.foldlM (fun files path => do
    match ← look path with
    | some node => return files.place path node
    | none => return files) files

/-- The paths that a run with a configuration file looks at. -/
def pathsOf (d : Config.Document) : List String :=
  let install := d.install.path
  let kind := d.update.framework.kind
  let program := d.server.launchBinary.getD (LaunchSpec.defaultBinary kind)
  [install, Path.join (Path.join install "server") d.install.identity, Steam.manifestPath install,
    Path.join install program] ++
    d.steamCmdPath.toList ++ d.server.reasonPath.toList ++ (kind.assemblyPath? install).toList

/-- The files that a search path may lead to the update tool by. -/
def searched (searchPath : Option String) : List String :=
  match searchPath with
  | none => []
  | some path => (path.splitOn ":").map fun directory => Path.join directory Config.steamCmdName

/-- The surroundings of a run with some arguments. -/
def surroundings (args : List String) : IO Host := do
  let searchPath ← IO.getEnv "PATH"
  let temporaryDirectory := (← IO.getEnv "TMPDIR").getD "/tmp"
  let files ← picture .bare (args.take 1 ++ searched searchPath)
  let document := do Config.Document.read? (← (files.readText (← args.head?)).toOption)
  let files ← match document with
    | some d => picture files (pathsOf d)
    | none => pure files
  return { files, searchPath, temporaryDirectory }

def lineText (l : Log.Line) : String := s!"{l.level.name} {l.speaker.target}: {l.text}"

end ServerWarden.Main

open ServerWarden in
def main (args : List String) : IO UInt32 := do
  let host ← Main.surroundings args
  let draw ← IO.rand 1 2147483647
  let report := CommandLine.Invocation.run ⟨args, ← IO.getEnv "RUST_LOG", host, draw⟩
  report.printed.forM fun line => IO.println line
  report.complaints.forM fun line => IO.eprintln line
  report.log.forM fun line => IO.println (Main.lineText line)
  return .ofNat ((report.exit.map ExitCode.code).getD 0)
