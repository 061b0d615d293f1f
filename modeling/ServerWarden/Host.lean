/-
# The surroundings of a run

What a run finds around it: the files, the directories that programs are looked for in, and the one
for files that need not last.
-/
import ServerWarden.Files.Tree

namespace ServerWarden

structure Host where
  files : FileTree
  /-- The directories to look for programs in, with colons between them, if any are given. -/
  searchPath : Option String
  temporaryDirectory : String := "/tmp"

namespace Host

/-- The first file of a name in the search path. -/
def search? (host : Host) (name : String) : Option String :=
  host.searchPath.bind fun path => host.files.search? path name

end Host
end ServerWarden
