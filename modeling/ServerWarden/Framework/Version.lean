/-
# Versions of installed assemblies

A probe prints what an assembly says about itself.  The version is the rest of the first line that
starts with `Version:`, cut to its first three components.  Another probe prints the version alone,
with a suffix after a plus or a minus.
-/
import ServerWarden.Text.Blank
import ServerWarden.Text.Line

namespace ServerWarden.Framework

/-- The first `count` components of a version, or all of it. -/
def firstComponents : Nat → List Char → List Char
  | _, [] => []
  | 0, _ => []
  | count + 1, c :: rest =>
    if c = '.' then (if count = 0 then [] else c :: firstComponents count rest)
    else c :: firstComponents (count + 1) rest

/-- The components of a version that count. -/
def componentCount : Nat := 3

/-- What the version line of a probe starts with. -/
def versionMark : List Char := "Version:".toList

/-- The version in the output of an assembly probe. -/
def probedVersion? (output : String) : Option String := do
  let line ← (Text.lineChars output.toList).find? versionMark.isPrefixOf
  let version := Text.trimChars (line.drop versionMark.length)
  if version.isEmpty then none
  else some (String.ofList (firstComponents componentCount version))

/-- The version on the first line of a probe that prints nothing else. -/
def productVersion? (output : String) : Option String := do
  let line ← (Text.lineChars output.toList).head?
  let version := (Text.trimChars line).takeWhile fun c => c ≠ '+' && c ≠ '-'
  if version.isEmpty then none else some (String.ofList version)

end ServerWarden.Framework
