/-
# Installed frameworks

What a probe says about an installed assembly, and unpacking an archive over an install.
-/
import ServerWarden.Framework.Archive
import ServerWarden.Framework.Version
import ServerWarden.Machine

namespace ServerWarden.Framework

/-- The program that probes an assembly. -/
def probeName : String := "monodis"

/-- The version of an assembly, nothing if it is not there. -/
def installedVersion (m : Machine) (assembly : String) : Attempt (Option String) := do
  if !(← get).has assembly then return none
  else
    let finished ← Attempt.runProgram m probeName ["--assembly", assembly] fun e =>
      .update (.probe e)
    if finished.status.isSuccess then
      return probedVersion? (Text.Utf8.decodeLossy finished.output)
    else throw (.update (.probeStatus finished.status))

/-- Unpacks an archive over a directory. -/
def extract (m : Machine) (archive destination : String) : Attempt Unit := do
  match (← get).read archive with
  | .error e => throw (.file (.system e))
  | .ok bytes =>
    if bytes.length < 2 then throw (.file .tooShort)
    else
      match ArchiveFormat.ofHeader? bytes with
      | none => throw (.update (.unknownArchive archive))
      | some format =>
        let args := format.args archive destination
        let finished ← Attempt.runProgram m format.program args fun e => .file (.system e)
        if !finished.status.isSuccess then
          throw (.update (.extractStatus archive finished.status))

end ServerWarden.Framework
