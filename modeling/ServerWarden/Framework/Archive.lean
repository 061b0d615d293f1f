/-
# Archive formats

An archive is told by its first two bytes.  Each format has a program that unpacks it and the
arguments that make it do so.
-/

namespace ServerWarden

inductive ArchiveFormat where
  | tarGz | zip
  deriving DecidableEq, Repr

namespace ArchiveFormat

/-- The format that a file's first bytes announce. -/
def ofHeader? : List UInt8 → Option ArchiveFormat
  | 0x1F :: 0x8B :: _ => some .tarGz
  | 0x50 :: 0x4B :: _ => some .zip
  | _ => none

/-- The program that unpacks a format. -/
def program : ArchiveFormat → String
  | .tarGz => "tar"
  | .zip => "unzip"

/-- The arguments that unpack an archive into a directory. -/
def args (archive destination : String) : ArchiveFormat → List String
  | .tarGz => ["-xzf", archive, "-C", destination]
  | .zip => ["-o", "-q", archive, "-d", destination]

end ArchiveFormat
end ServerWarden
