/-
# Running the update tool

The tool is asked for the tree of the application by a script, as it does not take those commands on
its command line; its exit status does not matter there, only whether the tree comes.  An install
has to end well.
-/
import ServerWarden.Machine
import ServerWarden.Steam.AppInfo

namespace ServerWarden

/-- Where the update tool is, what it keeps up to date, and where its scripts go. -/
structure SteamCmd where
  executable : Option String
  installPath : String
  scriptDirectory : String

namespace SteamCmd

def tool (c : SteamCmd) : Attempt String :=
  match c.executable with
  | some path => return path
  | none => throw (.update .noSteamCmd)

def run (m : Machine) (tool : String) (args : List String) : Attempt Finished :=
  Attempt.runProgram m tool args fun e => .file (.system e)

/-- Asks for the latest build of a branch. -/
def latestBuild (c : SteamCmd) (m : Machine) (branch : Option String) :
    Attempt (Option String) := do
  let tool ← c.tool
  Attempt.change (·.makeDirectories c.scriptDirectory)
  let script := Path.join c.scriptDirectory "steamcmd.scr"
  Attempt.change (·.write script (Text.Utf8.encode (Steam.infoScript c.installPath)))
  let finished ← run m tool ["+runscript", script]
  if !finished.status.isSuccess then
    Attempt.say .warn .steam
      s!"SteamCMD returned non-zero exit status: {finished.status.text}"
  match Steam.appInfo? (Text.Utf8.decodeLossy finished.output) with
  | none => throw (.update .noAppInfo)
  | some info => liftExcept (Steam.latestBuild info branch)

/-- Installs the server, or repairs it. -/
def install (c : SteamCmd) (m : Machine) (branch : Option String) : Attempt Unit := do
  let tool ← c.tool
  let args := Steam.installArgs c.installPath branch
  let shown := " ".intercalate args
  Attempt.say .info .steam s!"Running SteamCMD: {tool} {shown}"
  let finished ← run m tool args
  if !finished.status.isSuccess then
    throw (.update (.steamCmdStatus finished.status))

end SteamCmd
end ServerWarden
