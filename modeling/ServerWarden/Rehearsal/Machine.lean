/-
# A machine of scripts

A machine whose programs are scripts on a file tree, and whose network reaches nobody.
-/
import ServerWarden.Child.Handle
import ServerWarden.Machine
import ServerWarden.Shell.Run

namespace ServerWarden.Rehearsal

/-- Runs a script to its end.  One that has none counts as killed. -/
def runScript (searchPath : Option String) (files : FileTree) (program : String)
    (args : List String) : Except SystemError Finished :=
  let setting : Shell.Setting := ⟨files, searchPath, .start, none, []⟩
  (Shell.execute setting program args).map fun o => ⟨o.status.getD Child.killed, o.output, o.files⟩

def machine (searchPath : Option String) : Machine where
  run := runScript searchPath
  fetch := fun _ => none

end ServerWarden.Rehearsal
