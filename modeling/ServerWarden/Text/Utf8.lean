/-
# UTF-8

Reading bytes as text, in two ways.  `decode?` takes well-formed UTF-8 only.  `decodeLossy` never
refuses: each longest run of bytes that begins a character but is cut short, and each byte that
begins none, becomes one replacement character.  Both walk the bytes with `nextChar`, which says
for the front of the input what it is and how many bytes it takes.
-/

namespace ServerWarden.Text.Utf8

/-- The character that stands for bytes that are no text. -/
def replacement : Char := '\uFFFD'

/-- What may follow a lead byte: the number of trailing bytes, the bits of the lead byte, and the
range that the first trailing byte must be in.  The range rules out overlong forms, surrogates and
values above `0x10FFFF`. -/
structure Lead where
  tails : Nat
  bits : Nat
  low : Nat
  high : Nat

/-- Classifies a byte that is not ASCII as the start of a character. -/
def lead? (b : Nat) : Option Lead :=
  if 0xC2 ≤ b ∧ b ≤ 0xDF then some ⟨1, b - 0xC0, 0x80, 0xBF⟩
  else if b = 0xE0 then some ⟨2, 0, 0xA0, 0xBF⟩
  else if b = 0xED then some ⟨2, 0xD, 0x80, 0x9F⟩
  else if 0xE1 ≤ b ∧ b ≤ 0xEF then some ⟨2, b - 0xE0, 0x80, 0xBF⟩
  else if b = 0xF0 then some ⟨3, 0, 0x90, 0xBF⟩
  else if 0xF1 ≤ b ∧ b ≤ 0xF3 then some ⟨3, b - 0xF0, 0x80, 0xBF⟩
  else if b = 0xF4 then some ⟨3, 4, 0x80, 0x8F⟩
  else none

/-- Reads `n` trailing bytes after `value`, the first of them within `low` and `high`.  Answers the
character, or nothing when the input stops or leaves the range, and how many bytes were good. -/
def tails : Nat → Nat → Nat → Nat → Nat → List UInt8 → Option Char × Nat
  | 0, value, _, _, taken, _ => (some (Char.ofNat value), taken)
  | _ + 1, _, _, _, taken, [] => (none, taken)
  | n + 1, value, low, high, taken, b :: rest =>
    if low ≤ b.toNat ∧ b.toNat ≤ high then
      tails n (value * 64 + (b.toNat - 0x80)) 0x80 0xBF (taken + 1) rest
    else (none, taken)

/-- The character at the front of the bytes after `b`, if there is one, and how many bytes besides
`b` belong to it or to the broken start of one. -/
def nextChar (b : UInt8) (rest : List UInt8) : Option Char × Nat :=
  if b.toNat < 0x80 then (some (Char.ofNat b.toNat), 0)
  else match lead? b.toNat with
    | some l => tails l.tails l.bits l.low l.high 0 rest
    | none => (none, 0)

/-- The characters of the bytes, with nothing where the bytes are no text. -/
def scan : Nat → List UInt8 → List (Option Char)
  | _, [] => []
  | 0, _ => []
  | fuel + 1, b :: rest =>
    let (c, taken) := nextChar b rest
    c :: scan fuel (rest.drop taken)

/-- The characters of the bytes, with nothing where the bytes are no text. -/
def chars (bytes : List UInt8) : List (Option Char) :=
  scan bytes.length bytes

/-- The text that the bytes are the UTF-8 form of. -/
def decode? (bytes : List UInt8) : Option String :=
  ((chars bytes).mapM id).map String.ofList

/-- The text of the bytes, with a replacement character for each stretch that is no text. -/
def decodeLossy (bytes : List UInt8) : String :=
  String.ofList ((chars bytes).map (·.getD replacement))

/-- The UTF-8 form of a text. -/
def encode (s : String) : List UInt8 :=
  s.toUTF8.toList

end ServerWarden.Text.Utf8
