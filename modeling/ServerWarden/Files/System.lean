/-
# The system's own files

The directories and programs that every run finds, whatever else is there.
-/
import ServerWarden.Files.Tree

namespace ServerWarden.FileTree

/-- The directories of a bare system. -/
def systemDirectories : List Place :=
  [["bin"], ["dev"], ["etc"], ["home"], ["root"], ["srv"], ["tmp"], ["usr"], ["usr", "bin"],
    ["usr", "lib"], ["var"]]

/-- The programs of a bare system, which are found in two directories. -/
def systemTools : List (String × Tool) :=
  [("bash", .shell), ("cat", .cat), ("echo", .echo), ("false", .fail), ("mkdir", .mkdir),
    ("printf", .printf), ("rm", .remove), ("sh", .shell), ("sleep", .sleep), ("tar", .tar),
    ("touch", .touch), ("true", .succeed)]

/-- A system with nothing on it but its own files. -/
def bare : FileTree where
  nodes :=
    systemDirectories.map (·, .directory) ++
      systemTools.map (fun (name, t) => (["bin", name], .tool t)) ++
      systemTools.map (fun (name, t) => (["usr", "bin", name], .tool t))
  workingDir := []

/-- A tree with a node at a path, the directories on the way made as needed. -/
def place (t : FileTree) (path : String) (node : FileNode) : FileTree :=
  match node with
  | .directory => (t.makeDirectories path).toOption.getD t
  | _ =>
    let above := (Path.parent? path).getD ""
    let made := (t.makeDirectories above).toOption.getD t
    match made.resolve path with
    | .ok p => made.put p node
    | .error _ => made

end ServerWarden.FileTree
