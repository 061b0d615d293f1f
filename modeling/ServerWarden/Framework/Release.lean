/-
# Framework releases

Where the releases of a framework are described, which file of one is for this system, and where a
framework is found in an install.  The version of a release is comparable with that of an installed
assembly.
-/
import ServerWarden.Config.Basic
import ServerWarden.Files.Path
import ServerWarden.Json.Record
import ServerWarden.Log

namespace ServerWarden

structure ReleaseAsset where
  name : String
  url : String
  deriving DecidableEq, Repr

structure Release where
  name : String
  assets : List ReleaseAsset
  deriving DecidableEq, Repr

namespace Framework

/-- Where the current release is described. -/
def releaseUrl? : Framework → Option String
  | .none => Option.none
  | .carbon =>
    some "https://api.github.com/repos/CarbonCommunity/Carbon/releases/tags/production_build"
  | .oxide => some "https://api.github.com/repos/OxideMod/Oxide.Rust/releases/latest"

/-- The file of a release that is for this system. -/
def assetName? : Framework → Option String
  | .none => Option.none
  | .carbon => some "Carbon.Linux.Release.tar.gz"
  | .oxide => some "Oxide.Rust-linux.zip"

/-- The assembly that marks an install. -/
def assemblyPath? (installPath : String) : Framework → Option String
  | .none => Option.none
  | .carbon => some (Path.join installPath "carbon/managed/Carbon.dll")
  | .oxide => some (Path.join installPath "RustDedicated_Data/Managed/Oxide.Rust.dll")

end Framework

namespace Release

def readAsset? (v : Json) : Option ReleaseAsset := do
  let r ← v.record? ["name", "browser_download_url"]
  return {
    name := ← r.required "name" Json.asText?
    url := ← r.required "browser_download_url" Json.asText? }

/-- Reads the description of a release. -/
def read? (text : String) : Option Release := do
  let r ← (← Json.read? text).record? ["name", "assets"]
  return {
    name := ← r.required "name" Json.asText?
    assets := ← r.optional "assets" (Json.asList? readAsset?) [] }

/-- What stands before the version in the name of a Carbon release. -/
def carbonPrefix : String := "Production Build — v"

/-- The version that a release installs. -/
def version (r : Release) : Framework → Logged (Option String)
  | .none => pure none
  | .carbon =>
    if carbonPrefix.toList.isPrefixOf r.name.toList then
      pure (some (String.ofList (r.name.toList.drop carbonPrefix.length)))
    else do
      Logged.say .warn .framework s!"Carbon release prefix not found in release name: {r.name}"
      return none
  | .oxide => pure (some r.name)

/-- Where the file for this system is fetched from. -/
def assetUrl? (r : Release) (kind : Framework) : Option String := do
  let wanted ← kind.assetName?
  return (← r.assets.find? fun a => a.name == wanted).url

end Release
end ServerWarden
