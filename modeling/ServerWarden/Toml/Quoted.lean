/-
# Quoted text of a settings document

Four spellings: `"…"` with escapes, `'…'` without, and both in a tripled form that may run over
several lines.  A control character other than the tab may not stand in any of them, and a carriage
return only before a line feed.  In the tripled form a newline right after the opening quotes is
dropped, up to two quotes may stand before the closing ones, and a backslash at the end of a line
swallows all blanks and newlines up to the next character.
-/

namespace ServerWarden.Toml.Quoted

/-- Whether a character may stand for itself in quoted text and in comments. -/
def isPlain (c : Char) : Bool :=
  c == '\t' || (0x20 ≤ c.toNat && c.toNat != 0x7F)

def isBlank (c : Char) : Bool := c == ' ' || c == '\t'

/-- The value of a hexadecimal digit. -/
def hex? (c : Char) : Option Nat :=
  if c.isDigit then some (c.toNat - '0'.toNat)
  else if 'a' ≤ c ∧ c ≤ 'f' then some (c.toNat - 'a'.toNat + 10)
  else if 'A' ≤ c ∧ c ≤ 'F' then some (c.toNat - 'A'.toNat + 10)
  else none

/-- The character that `n` hexadecimal digits name. -/
def codePoint? (n : Nat) (cs : List Char) : Option (Char × List Char) := do
  let ds ← (cs.take n).mapM hex?
  if ds.length ≠ n then none
  else
    let v := ds.foldl (fun v d => v * 16 + d) 0
    if h : v.isValidChar then some (Char.ofNatAux v h, cs.drop n) else none

/-- The character that an escape stands for, after its backslash. -/
def escape? : List Char → Option (Char × List Char)
  | 'b' :: cs => some ('\x08', cs)
  | 't' :: cs => some ('\t', cs)
  | 'n' :: cs => some ('\n', cs)
  | 'f' :: cs => some ('\x0C', cs)
  | 'r' :: cs => some ('\r', cs)
  | 'e' :: cs => some ('\x1B', cs)
  | '"' :: cs => some ('"', cs)
  | '\\' :: cs => some ('\\', cs)
  | 'x' :: cs => codePoint? 2 cs
  | 'u' :: cs => codePoint? 4 cs
  | 'U' :: cs => codePoint? 8 cs
  | _ => none

/-- Skips a newline at the front. -/
def dropNewline : List Char → List Char
  | '\n' :: cs => cs
  | '\r' :: '\n' :: cs => cs
  | cs => cs

/-- Skips blanks and newlines. -/
def dropSpace : List Char → List Char
  | '\n' :: cs => dropSpace cs
  | '\r' :: '\n' :: cs => dropSpace cs
  | ' ' :: cs => dropSpace cs
  | '\t' :: cs => dropSpace cs
  | cs => cs

/-- What follows a backslash at the end of a line, if it is one. -/
def joinedLine? (cs : List Char) : Option (List Char) :=
  match cs.dropWhile isBlank with
  | '\n' :: cs => some (dropSpace cs)
  | '\r' :: '\n' :: cs => some (dropSpace cs)
  | _ => none

/-- Text up to the closing quote of a one-line spelling.  `seen` is the text so far, reversed. -/
def line? (quote : Char) : Nat → List Char → List Char → Option (String × List Char)
  | _, _, [] => none
  | 0, _, _ => none
  | fuel + 1, seen, c :: cs =>
    if c = quote then some (String.ofList seen.reverse, cs)
    else if c = '\\' ∧ quote = '"' then
      match escape? cs with
      | some (e, cs) => line? quote fuel (e :: seen) cs
      | none => none
    else if isPlain c then line? quote fuel (c :: seen) cs
    else none

/-- Text up to the closing quotes of a tripled spelling. -/
def block? (quote : Char) : Nat → List Char → List Char → Option (String × List Char)
  | _, _, [] => none
  | 0, _, _ => none
  | fuel + 1, seen, c :: cs =>
    if c = quote then
      let run := (c :: cs).takeWhile (· = quote)
      if run.length < 3 then block? quote fuel (c :: seen) cs
      else if 5 < run.length then none
      else some (String.ofList (List.replicate (run.length - 3) quote ++ seen).reverse,
        (c :: cs).drop run.length)
    else if c = '\\' ∧ quote = '"' then
      match joinedLine? cs with
      | some cs => block? quote fuel seen cs
      | none =>
        match escape? cs with
        | some (e, cs) => block? quote fuel (e :: seen) cs
        | none => none
    else if c = '\n' then block? quote fuel (c :: seen) cs
    else if c = '\r' then
      match cs with
      | '\n' :: cs => block? quote fuel ('\n' :: '\r' :: seen) cs
      | _ => none
    else if isPlain c then block? quote fuel (c :: seen) cs
    else none

/-- Quoted text on one line, as a name may be written. -/
def name? (quote : Char) (cs : List Char) : Option (String × List Char) :=
  line? quote cs.length [] cs

/-- Quoted text after its first quote, in either form. -/
def read? (quote : Char) (cs : List Char) : Option (String × List Char) :=
  if cs.take 2 = [quote, quote] then
    let body := dropNewline (cs.drop 2)
    block? quote body.length [] body
  else name? quote cs

end ServerWarden.Toml.Quoted
