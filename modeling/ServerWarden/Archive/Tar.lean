/-
# Archives of files

An archive is a row of blocks of 512 bytes: a header for each member, and its data after it.  It
ends with an empty block or with the file.  A name that is too long for the header comes in a member
before it.  Members are put below the directory they are unpacked to.
-/
import ServerWarden.Archive.Gzip
import ServerWarden.Files.Tree

namespace ServerWarden.Archive

def blockSize : Nat := 512

/-- The bytes of a field, up to the first zero. -/
def fieldText (block : List UInt8) (offset width : Nat) : String :=
  Text.Utf8.decodeLossy (((block.drop offset).take width).takeWhile (· ≠ 0))

/-- The octal number in a field. -/
def fieldNumber (block : List UInt8) (offset width : Nat) : Nat :=
  (((block.drop offset).take width).filter fun b => 48 ≤ b && b ≤ 55).foldl
    (fun n b => n * 8 + (b.toNat - 48)) 0

/-- Whether the checksum of a header is right; it is taken with blanks in its own place. -/
def isHeader (block : List UInt8) : Bool :=
  let sum (bs : List UInt8) := bs.foldl (fun n b => n + b.toNat) 0
  fieldNumber block 148 8 == sum (block.take 148) + 8 * 32 + sum (block.drop 156)

inductive MemberKind where
  | file | directory
  /-- The name of the next member. -/
  | longName
  /-- A member that is passed over. -/
  | other
  deriving DecidableEq, Repr

def memberKind (flag : UInt8) (name : String) : MemberKind :=
  if flag = 53 ∨ ((flag = 0 ∨ flag = 48) ∧ name.toList.getLast? = some '/') then .directory
  else if flag = 0 ∨ flag = 48 ∨ flag = 55 then .file
  else if flag = 76 then .longName
  else .other

structure Member where
  kind : MemberKind
  name : String
  isExecutable : Bool
  data : List UInt8

/-- A member, with what follows it. -/
def member (longName : Option String) (block rest : List UInt8) : Member × List UInt8 :=
  let size := fieldNumber block 124 12
  let lead := fieldText block 345 155
  let name := longName.getD <|
    if lead.isEmpty then fieldText block 0 100 else lead ++ "/" ++ fieldText block 0 100
  ({ kind := memberKind ((block.drop 156).headD 0) name
     name
     isExecutable := fieldNumber block 100 8 / 64 % 2 = 1
     data := rest.take size },
    rest.drop ((size + blockSize - 1) / blockSize * blockSize))

/-- The members of an archive, and whether it is well formed.  `fuel` bounds their number. -/
def members (longName : Option String) : Nat → List UInt8 → List Member × Bool
  | 0, _ => ([], false)
  | fuel + 1, bytes =>
    let block := bytes.take blockSize
    if bytes.isEmpty ∨ (block.all (· = 0) ∧ block.length = blockSize) then ([], true)
    else if block.length < blockSize ∨ !isHeader block then ([], false)
    else
      let (m, rest) := member longName block (bytes.drop blockSize)
      if m.kind = .longName then
        members (some (Text.Utf8.decodeLossy (m.data.takeWhile (· ≠ 0)))) fuel rest
      else
        let isWhole := fieldNumber block 124 12 = m.data.length
        let (ms, isWell) := members none fuel rest
        (m :: ms, isWell && isWhole)

/-- Puts a member below a place.  Answers nothing if it cannot be put there. -/
def put (files : FileTree) (directory : String) (m : Member) : FileTree × Bool :=
  let steps := (Path.steps m.name).filter fun s => s ≠ "" ∧ s ≠ "."
  if steps.contains ".." then (files, false)
  else if steps.isEmpty then (files, true)
  else
    let path := Path.join directory ("/".intercalate steps)
    match m.kind with
    | .directory =>
      match files.makeDirectories path with
      | .ok files => (files, true)
      | .error _ => (files, false)
    | .file =>
      let above := (Path.parent? path).getD directory
      match files.makeDirectories above with
      | .error _ => (files, false)
      | .ok files =>
        match files.resolve path with
        | .error _ => (files, false)
        | .ok place =>
          if files.at? place = some .directory then (files, false)
          else (files.put place (.file m.data m.isExecutable), true)
    | _ => (files, true)

/-- Unpacks a compressed archive below a directory.  Answers the files, and whether all went well.
-/
def unpack (files : FileTree) (bytes : List UInt8) (directory : String) : FileTree × Bool :=
  let (data, isWhole) := gunzip bytes
  let (ms, isWell) := members none (data.size / blockSize + 2) data.toList
  ms.foldl (fun (files, soFar) m =>
    let (files, isPut) := put files directory m
    (files, soFar && isPut)) (files, isWhole && isWell)

end ServerWarden.Archive
