/-
# Reading a settings document

A document is lines: `name = value`, `[header]`, `[[repeated header]]`, or nothing, each with an
optional comment.  Lines end in a line feed, with or without a carriage return before it.  Values in
brackets and braces may run over several lines, may end in a comma, and nest up to `depthLimit`
deep.  `read?` answers the document's table.
-/
import ServerWarden.Toml.Table
import ServerWarden.Toml.Datetime
import ServerWarden.Toml.Number
import ServerWarden.Toml.Quoted

namespace ServerWarden.Toml

open Quoted (isBlank isPlain)

/-- How deep brackets and braces may nest. -/
def depthLimit : Nat := 80

def skipBlanks (cs : List Char) : List Char := cs.dropWhile isBlank

/-- Skips a comment up to the end of its line. -/
def skipComment? : List Char → Option (List Char)
  | '#' :: cs =>
    match cs.dropWhile isPlain with
    | [] => some []
    | '\n' :: rest => some ('\n' :: rest)
    | '\r' :: '\n' :: rest => some ('\n' :: rest)
    | _ => none
  | cs => some cs

/-- Skips blanks and a comment, then the end of the line, which may be the end of the text. -/
def endLine? (cs : List Char) : Option (List Char) := do
  match ← skipComment? (skipBlanks cs) with
  | [] => some []
  | '\n' :: rest => some rest
  | '\r' :: '\n' :: rest => some rest
  | _ => none

/-- Skips blanks, comments and newlines between the parts of a bracketed value. -/
def skipSpace? : Nat → List Char → Option (List Char)
  | 0, cs => some cs
  | fuel + 1, cs =>
    match skipBlanks cs with
    | '#' :: rest => do skipSpace? fuel (← skipComment? ('#' :: rest))
    | '\n' :: rest => skipSpace? fuel rest
    | '\r' :: '\n' :: rest => skipSpace? fuel rest
    | cs => some cs

def space? (cs : List Char) : Option (List Char) := skipSpace? (cs.length + 1) cs

/-! ## 1. Names -/

/-- The characters of a name without quotes. -/
def isBare (c : Char) : Bool := c.isAlphanum || c == '_' || c == '-'

/-- One part of a name. -/
def part? : List Char → Option (String × List Char)
  | '"' :: cs => Quoted.name? '"' cs
  | '\'' :: cs => Quoted.name? '\'' cs
  | cs =>
    let bare := cs.takeWhile isBare
    if bare.isEmpty then none else some (String.ofList bare, cs.dropWhile isBare)

/-- The further parts of a name, each after a point.  Answers them in reverse. -/
def parts? : Nat → List String → List Char → Option (List String × List Char)
  | 0, _, _ => none
  | fuel + 1, seen, cs => do
    let (p, cs) ← part? (skipBlanks cs)
    match skipBlanks cs with
    | '.' :: cs => parts? fuel (p :: seen) cs
    | cs => some (p :: seen, cs)

/-- A name: the parts before the last, the last, and what follows. -/
def name? (cs : List Char) : Option (List String × String × List Char) := do
  match ← parts? (cs.length + 1) [] cs with
  | (last :: path, cs) => some (path.reverse, last, cs)
  | ([], _) => none

/-! ## 2. Values -/

/-- The characters of a value without quotes or brackets. -/
def isScalarChar (c : Char) : Bool :=
  c.isAlphanum || c == '_' || c == '-' || c == '+' || c == '.' || c == ':'

/-- A value without quotes or brackets, from its characters. -/
def scalar? (cs : List Char) : Option Value :=
  match cs with
  | ['t', 'r', 'u', 'e'] => some (.boolean true)
  | ['f', 'a', 'l', 's', 'e'] => some (.boolean false)
  | cs =>
    (Number.integer? cs).map .integer <|> (Number.float? cs).map .float <|>
      (Datetime.normal? cs).map .datetime

/-- The characters of a value without quotes or brackets: a date and a time may have one blank
between them. -/
def scalarChars (cs : List Char) : List Char × List Char :=
  let first := cs.takeWhile isScalarChar
  let rest := cs.dropWhile isScalarChar
  match Datetime.date? first, rest with
  | some (_, []), ' ' :: c :: more =>
    if c.isDigit then
      (first ++ ' ' :: (c :: more).takeWhile isScalarChar, (c :: more).dropWhile isScalarChar)
    else (first, rest)
  | _, _ => (first, rest)

/-- A value that holds no others. -/
def plainValue? : List Char → Option (Value × List Char)
  | '"' :: cs => (Quoted.read? '"' cs).map fun (s, cs) => (.string s, cs)
  | '\'' :: cs => (Quoted.read? '\'' cs).map fun (s, cs) => (.string s, cs)
  | cs =>
    let (chars, rest) := scalarChars cs
    (scalar? chars).map fun v => (v, rest)

/-- A reader of one value. -/
abbrev ValueReader := List Char → Option (Value × List Char)

/-- The items of an array after its bracket, with those before in reverse. -/
def arrayItems? (item : ValueReader) : Nat → List Value → ValueReader
  | 0, _, _ => none
  | fuel + 1, seen, cs => do
    match ← space? cs with
    | ']' :: cs => some (.array seen.reverse, cs)
    | cs =>
      let (v, cs) ← item cs
      match ← space? cs with
      | ',' :: cs => arrayItems? item fuel (v :: seen) cs
      | ']' :: cs => some (.array (v :: seen).reverse, cs)
      | _ => none

/-- The entries of a table in braces, added to those before. -/
def inlineEntries? (item : ValueReader) : Nat → Entries → ValueReader
  | 0, _, _ => none
  | fuel + 1, entries, cs => do
    match ← space? cs with
    | '}' :: cs => some (.table .inline entries, cs)
    | cs =>
      let (path, last, cs) ← name? cs
      match skipBlanks cs with
      | '=' :: cs =>
        let (v, cs) ← item (skipBlanks cs)
        let entries ← Entries.define entries path last v
        match ← space? cs with
        | ',' :: cs => inlineEntries? item fuel entries cs
        | '}' :: cs => some (.table .inline entries, cs)
        | _ => none
      | _ => none

/-- A value with at most `depth` levels of brackets and braces. -/
def value? : Nat → ValueReader
  | 0, cs => plainValue? cs
  | depth + 1, cs =>
    match cs with
    | '[' :: cs => arrayItems? (value? depth) (cs.length + 1) [] cs
    | '{' :: cs => inlineEntries? (value? depth) (cs.length + 1) [] cs
    | cs => plainValue? cs

/-! ## 3. Documents -/

/-- A document as far as it is read: its entries, and the header that is in force. -/
structure Draft where
  entries : Entries
  header : List String

/-- A header after its opening brackets, up to its closing ones. -/
def header? (close : List Char) (cs : List Char) : Option (List String × String × List Char) := do
  let (path, last, cs) ← name? cs
  if close.isPrefixOf cs then some (path, last, cs.drop close.length) else none

/-- One line, with what follows it. -/
def line? (draft : Draft) (cs : List Char) : Option (Draft × List Char) :=
  match skipBlanks cs with
  | '[' :: '[' :: cs => do
    let (path, last, cs) ← header? [']', ']'] cs
    let entries ← draft.entries.pushTable path last
    return (⟨entries, path ++ [last]⟩, ← endLine? cs)
  | '[' :: cs => do
    let (path, last, cs) ← header? [']'] cs
    let entries ← draft.entries.openTable path last
    return (⟨entries, path ++ [last]⟩, ← endLine? cs)
  | cs =>
    match endLine? cs with
    | some cs => some (draft, cs)
    | none => do
      let (path, last, cs) ← name? cs
      match skipBlanks cs with
      | '=' :: cs =>
        let (v, cs) ← value? depthLimit (skipBlanks cs)
        let entries ← draft.entries.assign draft.header path last v
        return (⟨entries, draft.header⟩, ← endLine? cs)
      | _ => none

def lines? : Nat → Draft → List Char → Option Entries
  | _, draft, [] => some draft.entries
  | 0, _, _ => none
  | fuel + 1, draft, cs => do
    let (draft, cs) ← line? draft cs
    lines? fuel draft cs

/-- The table of a document.  A byte-order mark in front is skipped. -/
def read? (text : String) : Option Entries :=
  let cs := match text.toList with
    | '\uFEFF' :: cs => cs
    | cs => cs
  lines? (cs.length + 1) ⟨[], []⟩ cs

end ServerWarden.Toml
