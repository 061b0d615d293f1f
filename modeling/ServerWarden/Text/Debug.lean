/-
# Values in the log

How an optional text is shown in a log line: in quotes, with escapes, so that its ends can be seen.
-/

namespace ServerWarden.Text

/-- A number in hexadecimal digits. -/
def hexText (n : Nat) : List Char := Nat.toDigits 16 n

/-- A character between quotes. -/
def debugChar (c : Char) : List Char :=
  if c = '"' then ['\\', '"']
  else if c = '\\' then ['\\', '\\']
  else if c = '\n' then ['\\', 'n']
  else if c = '\r' then ['\\', 'r']
  else if c = '\t' then ['\\', 't']
  else if c = '\x00' then ['\\', '0']
  else if c.toNat < 0x20 ∨ (0x7F ≤ c.toNat ∧ c.toNat < 0xA0) then
    ['\\', 'u', '\x7b'] ++ hexText c.toNat ++ ['\x7d']
  else [c]

/-- A text in quotes. -/
def debugText (s : String) : String :=
  String.ofList ('"' :: s.toList.flatMap debugChar ++ ['"'])

def debugOption : Option String → String
  | none => "None"
  | some s => "Some(" ++ debugText s ++ ")"

end ServerWarden.Text
