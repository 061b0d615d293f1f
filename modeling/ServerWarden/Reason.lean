/-
# Shutdown reasons

An operator leaves a reason in a file, which is consumed by the next shutdown.  Line endings do not
matter, and a reason of several lines starts on a line of its own.  A file that is missing,
unreadable or empty gives the fallback; it is removed whether or not it could be read.
-/
import ServerWarden.Files.Tree
import ServerWarden.Log
import ServerWarden.Text.Blank
import ServerWarden.Text.Line

namespace ServerWarden.Reason

/-- A line without the carriage returns at its end. -/
def bareLine (line : List Char) : List Char :=
  Text.dropWhileEnd (· = '\r') line

/-- The reason that a text gives. -/
def ofText (text fallback : String) : String :=
  let lines := (Text.lineChars text.toList).map bareLine
  let reason := Text.unlines lines
  match lines.countP (fun line => !line.isEmpty) with
  | 0 => fallback
  | 1 => String.ofList reason
  | _ => String.ofList (if reason.head? = some '\n' then reason else '\n' :: reason)

/-- The reason in a file, which is removed. -/
def take (files : FileTree) (path : Option String) (fallback : String) :
    Logged (String × FileTree) := do
  match path with
  | none => return (fallback, files)
  | some path =>
    if !files.has path then return (fallback, files)
    else
      let text := files.readText path
      let files ← match files.remove path with
        | .ok files => pure files
        | .error e => do
          Logged.say .warn .reason
            s!"Failed to remove shutdown reason file {path}: {e.message}"
          pure files
      match text with
      | .ok text => return (ofText text fallback, files)
      | .error e => do
        Logged.say .warn .reason s!"Failed to read shutdown reason file {path}: {e.message}"
        return (fallback, files)

end ServerWarden.Reason
