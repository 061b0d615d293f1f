/-
# Compressed files

A compressed file is a row of members, each with a header, deflated data, and a checksum and size to
check it by.  Zeros may follow the last member.
-/
import ServerWarden.Archive.Inflate

namespace ServerWarden.Archive

/-- The checksum after one more bit. -/
def checksumBit (crc : UInt32) : UInt32 :=
  if crc &&& 1 = 1 then (crc >>> 1) ^^^ 0xEDB88320 else crc >>> 1

/-- The checksum after one more byte. -/
def checksumByte (crc : UInt32) (b : UInt8) : UInt32 :=
  (List.range 8).foldl (fun crc _ => checksumBit crc) (crc ^^^ b.toUInt32)

def checksum (bytes : Array UInt8) : UInt32 := bytes.foldl checksumByte 0xFFFFFFFF ^^^ 0xFFFFFFFF

/-- A number of four bytes, the lowest first. -/
def number32 (bytes : List UInt8) : Nat :=
  (bytes.take 4).foldr (fun b n => b.toNat + 256 * n) 0

/-- What follows a text that ends in a zero byte. -/
def afterText (bytes : List UInt8) : List UInt8 := (bytes.dropWhile (· ≠ 0)).drop 1

/-- The data after the header of a member. -/
def afterHeader? : List UInt8 → Option (List UInt8)
  | 0x1F :: 0x8B :: 8 :: flags :: rest =>
    if rest.length < 6 then none
    else
      let body := rest.drop 6
      let body :=
        if flags &&& 4 ≠ 0 then body.drop (2 + (number32 (body.take 2))) else body
      let body := if flags &&& 8 ≠ 0 then afterText body else body
      let body := if flags &&& 16 ≠ 0 then afterText body else body
      some (if flags &&& 2 ≠ 0 then body.drop 2 else body)
  | _ => none

/-- Unpacks members.  Answers the data and whether all was well.  `fuel` bounds their number. -/
def gunzipMembers : Nat → List UInt8 → Array UInt8 × Bool
  | 0, _ => (#[], false)
  | fuel + 1, bytes =>
    match afterHeader? bytes with
    | none => (#[], false)
    | some body =>
      match inflate body with
      | (out, none) => (out, false)
      | (out, some rest) =>
        let isWhole := rest.length ≥ 8 && number32 rest == (checksum out).toNat &&
          number32 (rest.drop 4) == out.size % Nat.pow 2 32
        let rest := rest.drop 8
        if !isWhole then (out, false)
        else if rest.all (· = 0) then (out, true)
        else
          let (more, isWell) := gunzipMembers fuel rest
          (out ++ more, isWell)

def gunzip (bytes : List UInt8) : Array UInt8 × Bool := gunzipMembers (bytes.length + 1) bytes

end ServerWarden.Archive
