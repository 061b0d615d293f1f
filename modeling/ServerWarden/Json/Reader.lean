/-
# Reading JSON

The strict grammar: no comments, no comma before a closing bracket, no zeros in front of a number,
no control characters in a text.  Blanks are the space, the tab and the two characters of a newline.
Nesting has no bound here; a reader that wants one asks for the value's `depth`.
-/
import ServerWarden.Json.Value

namespace ServerWarden.Json

def isBlank (c : Char) : Bool := c == ' ' || c == '\t' || c == '\n' || c == '\r'

def skipBlanks (cs : List Char) : List Char := cs.dropWhile isBlank

/-! ## 1. Texts -/

/-- The value of a hexadecimal digit. -/
def hex? (c : Char) : Option Nat :=
  if c.isDigit then some (c.toNat - '0'.toNat)
  else if 'a' ≤ c ∧ c ≤ 'f' then some (c.toNat - 'a'.toNat + 10)
  else if 'A' ≤ c ∧ c ≤ 'F' then some (c.toNat - 'A'.toNat + 10)
  else none

/-- The value of four hexadecimal digits. -/
def unit? : List Char → Option (Nat × List Char)
  | a :: b :: c :: d :: rest => do
    return ((((← hex? a) * 16 + (← hex? b)) * 16 + (← hex? c)) * 16 + (← hex? d), rest)
  | _ => none

def isHighHalf (u : Nat) : Bool := 0xD800 ≤ u && u < 0xDC00

def isLowHalf (u : Nat) : Bool := 0xDC00 ≤ u && u < 0xE000

/-- The characters that a one-letter escape stands for. -/
def escape? : Char → Option Char
  | '"' => some '"'
  | '\\' => some '\\'
  | '/' => some '/'
  | 'b' => some '\x08'
  | 'f' => some '\x0C'
  | 'n' => some '\n'
  | 'r' => some '\r'
  | 't' => some '\t'
  | _ => none

/-- The character of an escaped code, after the digits of its first half.  Answers nothing for half
a pair. -/
def codePoint (u : Nat) (cs : List Char) : Option Char × List Char :=
  if isHighHalf u then
    match cs with
    | '\\' :: 'u' :: rest =>
      match unit? rest with
      | some (v, rest) =>
        if isLowHalf v then
          (some (Char.ofNat (0x10000 + (u - 0xD800) * 0x400 + (v - 0xDC00))), rest)
        else (none, cs)
      | none => (none, cs)
    | _ => (none, cs)
  else if isLowHalf u then (none, cs)
  else (some (Char.ofNat u), cs)

/-- A text up to its closing quote.  `seen` holds its characters in reverse, or nothing once half a
surrogate pair has come. -/
def text? : Nat → Option (List Char) → List Char → Option (Option String × List Char)
  | 0, _, _ => none
  | _ + 1, _, [] => none
  | fuel + 1, seen, c :: cs =>
    if c = '"' then some (seen.map fun s => String.ofList s.reverse, cs)
    else if c = '\\' then
      match cs with
      | 'u' :: cs =>
        match unit? cs with
        | some (u, cs) =>
          let (p, cs) := codePoint u cs
          text? fuel (seen.bind fun s => p.map (· :: s)) cs
        | none => none
      | e :: cs =>
        match escape? e with
        | some p => text? fuel (seen.map (p :: ·)) cs
        | none => none
      | [] => none
    else if c.toNat < 0x20 then none
    else text? fuel (seen.map (c :: ·)) cs

/-- A text after its opening quote. -/
def readText? (cs : List Char) : Option (Option String × List Char) :=
  text? (cs.length + 1) (some []) cs

/-! ## 2. Numbers -/

/-- The digits at the front. -/
def digits (cs : List Char) : List Nat × List Char :=
  ((cs.takeWhile Char.isDigit).map fun c => c.toNat - '0'.toNat, cs.dropWhile Char.isDigit)

/-- A fraction, if a point comes next. -/
def fraction? : List Char → Option (List Nat × List Char)
  | '.' :: cs =>
    match digits cs with
    | ([], _) => none
    | r => some r
  | cs => some ([], cs)

/-- An exponent after its mark. -/
def exponentValue? (cs : List Char) : Option (Int × List Char) :=
  let (negative, cs) := match cs with
    | '-' :: cs => (true, cs)
    | '+' :: cs => (false, cs)
    | cs => (false, cs)
  match digits cs with
  | ([], _) => none
  | (ds, cs) =>
    let n : Int := JsonNumber.ofDigits ds
    some (if negative then -n else n, cs)

/-- An exponent, if its mark comes next. -/
def exponent? : List Char → Option (Option Int × List Char)
  | 'e' :: cs => (exponentValue? cs).map fun (n, cs) => (some n, cs)
  | 'E' :: cs => (exponentValue? cs).map fun (n, cs) => (some n, cs)
  | cs => some (none, cs)

/-- A number from the front. -/
def number? (cs : List Char) : Option (JsonNumber × List Char) := do
  let (negative, cs) := match cs with
    | '-' :: cs => (true, cs)
    | cs => (false, cs)
  let (whole, cs) ← match digits cs with
    | ([], _) => none
    | (0 :: _ :: _, _) => none
    | r => some r
  let (fraction, cs) ← fraction? cs
  let (exponent, cs) ← exponent? cs
  return (⟨negative, whole, fraction, exponent⟩, cs)

/-! ## 3. Values -/

/-- A reader of one value, from its first character. -/
abbrev Reader := List Char → Option (Json × List Char)

/-- The items of an array from the first of those left, with those before in reverse. -/
def items? (item : Reader) : Nat → List Json → Reader
  | 0, _, _ => none
  | fuel + 1, seen, cs => do
    let (v, cs) ← item (skipBlanks cs)
    match skipBlanks cs with
    | ',' :: cs => items? item fuel (v :: seen) cs
    | ']' :: cs => some (.array (v :: seen).reverse, cs)
    | _ => none

/-- The members of an object from the first of those left, with those before in reverse. -/
def members? (item : Reader) : Nat → List (Option String × Json) → Reader
  | 0, _, _ => none
  | fuel + 1, seen, cs =>
    match skipBlanks cs with
    | '"' :: cs => do
      let (name, cs) ← readText? cs
      match skipBlanks cs with
      | ':' :: cs =>
        let (v, cs) ← item (skipBlanks cs)
        match skipBlanks cs with
        | ',' :: cs => members? item fuel ((name, v) :: seen) cs
        | '\x7d' :: cs => some (.object ((name, v) :: seen).reverse, cs)
        | _ => none
      | _ => none
    | _ => none

/-- A word with the value that it stands for. -/
def word? (word : String) (v : Json) : Reader := fun cs =>
  if word.toList.isPrefixOf cs then some (v, cs.drop word.length) else none

/-- A value from its first character.  The first argument bounds the nesting. -/
def value? : Nat → Reader
  | 0, _ => none
  | depth + 1, cs =>
    match cs with
    | '"' :: cs => (readText? cs).map fun (t, cs) => (.string t, cs)
    | '[' :: cs =>
      match skipBlanks cs with
      | ']' :: cs => some (.array [], cs)
      | _ => items? (value? depth) (cs.length + 1) [] cs
    | '\x7b' :: cs =>
      match skipBlanks cs with
      | '\x7d' :: cs => some (.object [], cs)
      | _ => members? (value? depth) (cs.length + 1) [] cs
    | 'n' :: _ => word? "null" .null cs
    | 't' :: _ => word? "true" (.bool true) cs
    | 'f' :: _ => word? "false" (.bool false) cs
    | cs => (number? cs).map fun (n, cs) => (.number n, cs)

/-- The value that a text is, with blanks around it. -/
def read? (s : String) : Option Json :=
  let cs := skipBlanks s.toList
  match value? (cs.length + 1) cs with
  | some (v, rest) => if (skipBlanks rest).isEmpty then some v else none
  | none => none

/-! ## 4. Strict values -/

/-- How deep arrays and objects nest. -/
def depth : Json → Nat
  | .array items => itemsDepth items + 1
  | .object members => membersDepth members + 1
  | _ => 0
where
  itemsDepth : List Json → Nat
    | [] => 0
    | v :: rest => max v.depth (itemsDepth rest)
  membersDepth : List (Option String × Json) → Nat
    | [] => 0
    | (_, v) :: rest => max v.depth (membersDepth rest)

/-- Whether every text is made of characters and every number is near a binary64 value. -/
def isUsable : Json → Bool
  | .string t => t.isSome
  | .number n => n.inRange
  | .array items => itemsUsable items
  | .object members => membersUsable members
  | _ => true
where
  itemsUsable : List Json → Bool
    | [] => true
    | v :: rest => v.isUsable && itemsUsable rest
  membersUsable : List (Option String × Json) → Bool
    | [] => true
    | (name, v) :: rest => name.isSome && v.isUsable && membersUsable rest

/-- The most that arrays and objects may nest in a value that is read as a whole. -/
def depthLimit : Nat := 127

/-- The value that a text is, all of it usable. -/
def readUsable? (s : String) : Option Json :=
  match read? s with
  | some v => if v.isUsable ∧ v.depth ≤ depthLimit then some v else none
  | none => none

/-- The last member of a name. -/
def member? : Json → String → Option Json
  | .object members, name => (members.reverse.find? fun m => m.1 == some name).map (·.2)
  | _, _ => none

end ServerWarden.Json
