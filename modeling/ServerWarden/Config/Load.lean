/-
# From a configuration file to a configuration

A document becomes a configuration in a fixed order, which decides what is reported first: the seed
strategy has to have its numbers, the update tool is looked for, launch parameters are flattened,
the update policy is made consistent, and the result is checked.  What is set aside on the way is
said in the log.
-/
import ServerWarden.Config.Document
import ServerWarden.Config.Error
import ServerWarden.Config.Params
import ServerWarden.Config.Policy
import ServerWarden.Host

namespace ServerWarden.Config

def SeedSettings.resolve (s : SeedSettings) : Except Error SeedStrategy :=
  match s.kind with
  | .fixed =>
    match s.fixed with
    | some seed => .ok (.fixed seed)
    | none => .error .seedMissing
  | .list => if s.list.isEmpty then .error .seedListEmpty else .ok (.list s.list)
  | .random => .ok .random

/-- The name of the update tool. -/
def steamCmdName : String := "steamcmd"

/-- Looks for the update tool in the search path. -/
def searchSteamCmd (host : Host) : Logged (Option String) := do
  match host.search? steamCmdName with
  | some path =>
    Logged.say .info .config s!"Using steamcmd at path: {path}"
    return some path
  | none =>
    Logged.say .warn .config "steamcmd not found; server updates will not work"
    return none

/-- The update tool: where the file says if something is there, else by the search path. -/
def resolveSteamCmd (host : Host) : Option String → Logged (Option String)
  | none => searchSteamCmd host
  | some path => do
    if host.files.has path then
      Logged.say .info .config s!"Using steamcmd at path: {path}"
      return some path
    else
      Logged.say .warn .config s!"steamcmd not found at configured path {path}; searching PATH"
      searchSteamCmd host

/-- The first thing that makes a configuration unusable, if there is one. -/
def fault? (c : Config) : Option ConfigFault :=
  if c.installPath.isEmpty then some .noInstallPath
  else if (Text.trim c.identity).isEmpty then some .noIdentity
  else if c.rcon.password.isEmpty then some .noPassword
  else if (Text.trim c.rcon.ip).isEmpty then some .noAddress
  else if c.rcon.port = 0 then some .zeroPort
  else if c.rcon.chatIdentifier = 0 then some .zeroChatIdentifier
  else none

/-- The configuration that a document describes. -/
def ofDocument (host : Host) (d : Document) : Logged (Except Error Config) := do
  match d.seed.resolve with
  | .error e => return .error e
  | .ok seed =>
    let steamCmdPath ← resolveSteamCmd host d.steamCmdPath
    let launchMinus ← flattenParams "-" d.launch.minus []
    let launchPlus ← flattenParams "+" d.launch.plus []
    let update ← d.update.normalize
    let config : Config := {
      logLevel := d.logLevel
      installPath := d.install.path
      identity := d.install.identity
      downloadPath :=
        d.downloadPath.getD (Path.join host.temporaryDirectory downloadDirectory)
      server := d.server
      rcon := d.rcon
      seed, steamCmdPath, update, launchMinus, launchPlus }
    match config.fault? with
    | some why => return .error (.invalid why)
    | none => return .ok config

/-- The configuration that a text describes. -/
def ofText (host : Host) (text : String) : Logged (Except Error Config) :=
  match Document.read? text with
  | none => pure (.error .malformed)
  | some d => ofDocument host d

/-- The configuration in a file. -/
def ofFile (host : Host) (path : String) : Logged (Except Error Config) := do
  match host.files.readText path with
  | .error e => return .error (.unreadable path e)
  | .ok text =>
    match ← ofText host text with
    | .error e => return .error (.inFile path e)
    | .ok c => return .ok c

/-- The directory of the server's identity. -/
def identityPath (c : Config) : String :=
  Path.join (Path.join c.installPath "server") c.identity

/-- Checks that the directories of the install are there. -/
def checkInstall (files : FileTree) (c : Config) : Except Error Unit :=
  if !files.isDirectory c.installPath then .error (.noInstall c.installPath)
  else if !files.isDirectory c.identityPath then .error (.noIdentity c.identityPath)
  else .ok ()

end ServerWarden.Config
