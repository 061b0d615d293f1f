/-
# The updater

Looks for newer versions of the server and of its framework, and installs them.  No operation fails:
what goes wrong is said in the log, and counts as no update.  A newer version is there only if the
installed and the latest version are both known and differ.
-/
import ServerWarden.Config.Basic
import ServerWarden.Framework.Install
import ServerWarden.Framework.Release
import ServerWarden.Http.Download
import ServerWarden.Steam.Command
import ServerWarden.Text.Debug

namespace ServerWarden

structure Updater where
  installPath : String
  downloadPath : String
  framework : Framework
  steamCmd : SteamCmd

namespace Updater

def info (text : String) : Work Unit := Work.say .info .updater text

def error (text : String) : Work Unit := Work.say .error .updater text

/-- The updater of a configuration. -/
def ofConfig (c : Config) : Updater where
  installPath := c.installPath
  downloadPath := c.downloadPath
  framework := c.update.framework.kind
  steamCmd := ⟨c.steamCmdPath, c.installPath, c.downloadPath⟩

/-- Says whether there is an install to look at. -/
def greet (u : Updater) : Work Unit := do
  let manifest := Steam.manifestPath u.installPath
  if !(← get).has manifest then
    Work.say .warn .updater
      s!"Steam app manifest {manifest} does not exist; server update checks will fail"

/-- The result of an attempt, nothing if it failed, which is said. -/
def orSay {α : Type} (attempt : Attempt (Option α)) (what : String) : Work (Option α) := do
  match ← attempt.run with
  | .ok a => return a
  | .error e =>
    error s!"{what}: {e.message}"
    return none

/-- Whether two known versions differ. -/
def differ (installed latest : Option String) : Bool :=
  match installed, latest with
  | some i, some l => i != l
  | _, _ => false

/-- Whether a newer build of the server is there. -/
def checkServer (u : Updater) (m : Machine) : Work Bool := do
  let installed ← StateT.lift (Steam.installedBuild (← get) u.installPath)
  info s!"Installed server build: {Text.debugOption installed}"
  let branch := Steam.installedBranch (← get) u.installPath
  let latest ← orSay (u.steamCmd.latestBuild m branch) "Failed to query latest server build"
  let title := branch.getD Steam.publicBranch
  info s!"Latest server build on branch '{title}': {Text.debugOption latest}"
  return differ installed latest

/-- The current release of the framework. -/
def latestRelease (u : Updater) (m : Machine) : Attempt Release := do
  match u.framework.releaseUrl? with
  | none => throw (.update .noFramework)
  | some url =>
    match Release.read? (← Http.getText m url) with
    | some release => return release
    | none => throw .protocol

/-- Whether a newer version of the framework is there. -/
def checkFramework (u : Updater) (m : Machine) : Work Bool := do
  match u.framework.assemblyPath? u.installPath with
  | none => return false
  | some assembly =>
    let title := u.framework.title
    let installed ← orSay (Framework.installedVersion m assembly)
      s!"Failed to read installed {title} version"
    info s!"Installed {title} version: {Text.debugOption installed}"
    let version : Attempt (Option String) := do
      let release ← u.latestRelease m
      ExceptT.lift (StateT.lift (release.version u.framework))
    let latest ← orSay version s!"Failed to fetch latest {title} release"
    info s!"Latest {title} version: {Text.debugOption latest}"
    return differ installed latest

/-- Installs the server. -/
def updateServer (u : Updater) (m : Machine) : Work Unit := do
  let branch := Steam.installedBranch (← get) u.installPath
  match ← (u.steamCmd.install m branch).run with
  | .ok () => pure ()
  | .error e => error s!"Server update failed: {e.message}"

/-- Fetches and unpacks a release. -/
def installRelease (u : Updater) (m : Machine) (release : Release) : Attempt Unit := do
  match release.assetUrl? u.framework with
  | none => throw (.update (.noDownload u.framework.title release.name))
  | some url =>
    let archive := Path.join u.downloadPath (u.framework.assetName?.getD "framework-archive")
    let _ ← Http.download m url archive
    Framework.extract m archive u.installPath
    match (← get).remove archive with
    | .ok files => set files
    | .error e => Attempt.say .warn .updater s!"Failed to remove {archive}: {e.message}"

/-- Installs the framework over one that is there; `quiet` if it may be missing. -/
def updateFramework (u : Updater) (m : Machine) (quiet : Bool) : Work Unit := do
  match u.framework.assemblyPath? u.installPath with
  | none => return ()
  | some assembly =>
    let title := u.framework.title
    if !(← get).has assembly then
      if !quiet then
        Work.say .warn .updater
          s!"Cannot update {title} because a previous installation was not detected"
    else
      let attempt : Attempt Unit := do u.installRelease m (← u.latestRelease m)
      match ← attempt.run with
      | .ok () => info s!"{title} update installed"
      | .error e => error s!"{title} update failed: {e.message}"

end Updater
end ServerWarden
