/-
# Reading scripts

A script is cut into words and operators, and these are put together by the grammar of the shell:
lists, conditions and loops, with redirections at their ends.
-/
import ServerWarden.Shell.Syntax

namespace ServerWarden.Shell

inductive Token where
  | word (w : Word)
  | operator (s : String)
  /-- A redirection of a stream, whose target is the next word. -/
  | redirect (stream : Nat) (s : String)
  deriving DecidableEq, Repr

/-! ## 1. Words and operators -/

/-- The characters that end a word. -/
def endsWord (c : Char) : Bool :=
  [' ', '\t', '\n', ';', '&', '|', '<', '>', '(', ')'].contains c

/-- The parameters with names of one sign. -/
def isSign (c : Char) : Bool := c.isDigit || ['#', '?', '$', '!', '-'].contains c

/-- Takes a formula up to its two closing brackets. -/
def takeFormula (depth : Nat) (seen : List Char) : List Char → Option (List Char × List Char)
  | [] => none
  | ')' :: ')' :: rest =>
    if depth = 0 then some (seen.reverse, rest)
    else takeFormula (depth - 1) (')' :: seen) (')' :: rest)
  | c :: rest =>
    let depth := if c = '(' then depth + 1 else if c = ')' then depth - 1 else depth
    takeFormula depth (c :: seen) rest
termination_by cs => cs.length

/-- The piece after a dollar sign, with what is left. -/
def takeParameter (isQuoted : Bool) : List Char → Option (Piece × List Char)
  | '(' :: '(' :: rest =>
    (takeFormula 0 [] rest).map fun (cs, rest) => (.formula cs isQuoted, rest)
  | '(' :: _ => none
  | '\x7b' :: rest =>
    let name := rest.takeWhile (· ≠ '\x7d')
    some (.parameter (String.ofList name) isQuoted, (rest.drop (name.length + 1)))
  | c :: rest =>
    if c = '@' ∨ c = '*' then some (.arguments isQuoted, rest)
    else if isSign c then some (.parameter (String.singleton c) isQuoted, rest)
    else if c.isAlpha ∨ c = '_' then
      let name := (c :: rest).takeWhile fun c => c.isAlphanum || c = '_'
      some (.parameter (String.ofList name) isQuoted, (c :: rest).drop name.length)
    else some (.text "$" isQuoted, c :: rest)
  | [] => some (.text "$" isQuoted, [])

/-- Reads pieces: of a word, or up to a closing quote.  `fuel` bounds the number of pieces. -/
def readPieces (inQuotes : Bool) : Nat → List Char → Option (Word × List Char)
  | 0, _ => none
  | _ + 1, [] => if inQuotes then none else some ([], [])
  | fuel + 1, c :: rest =>
    let after (p : Piece) (rest : List Char) :=
      (readPieces inQuotes fuel rest).map fun (ps, rest) => (p :: ps, rest)
    if inQuotes then
      match c, rest with
      | '"', rest => some ([], rest)
      | '\\', '\n' :: rest => readPieces inQuotes fuel rest
      | '\\', d :: rest =>
        if ['$', '"', '\\', '\x60'].contains d then after (.text (String.singleton d) true) rest
        else after (.text (String.ofList ['\\', d]) true) rest
      | '$', rest => (takeParameter true rest).bind fun (p, rest) => after p rest
      | c, rest =>
        if c = '\x60' then none else after (.text (String.singleton c) true) rest
    else
      match c, rest with
      | '\'', rest =>
        let body := rest.takeWhile (· ≠ '\'')
        if body.length = rest.length then none
        else after (.text (String.ofList body) true) (rest.drop (body.length + 1))
      | '"', rest =>
        (readPieces true fuel rest).bind fun (ps, rest) =>
          (readPieces false fuel rest).map fun (qs, rest) =>
            (.text "" true :: ps ++ qs, rest)
      | '\\', '\n' :: rest => readPieces inQuotes fuel rest
      | '\\', d :: rest => after (.text (String.singleton d) true) rest
      | '$', rest => (takeParameter false rest).bind fun (p, rest) => after p rest
      | c, rest =>
        if c = '\x60' then none
        else if endsWord c then some ([], c :: rest)
        else after (.text (String.singleton c) false) rest

/-- Joins neighbouring texts of one kind. -/
def joinTexts : Word → Word
  | .text a p :: rest =>
    match joinTexts rest with
    | .text b q :: more =>
      if p = q then .text (a ++ b) p :: more else .text a p :: .text b q :: more
    | more => .text a p :: more
  | p :: rest => p :: joinTexts rest
  | [] => []

/-- The operator at the start of a text. -/
def operator? : List Char → Option (String × List Char)
  | '&' :: '&' :: rest => some ("&&", rest)
  | '|' :: '|' :: rest => some ("||", rest)
  | '&' :: rest => some ("&", rest)
  | '\n' :: rest => some (";", rest)
  | ';' :: rest => some (";", rest)
  | '(' :: rest => some ("(", rest)
  | ')' :: rest => some (")", rest)
  | _ => none

/-- The redirection at the start of a text. -/
def redirection? : List Char → Option (String × Nat × List Char)
  | '>' :: '>' :: rest => some (">>", 1, rest)
  | '>' :: '&' :: rest => some (">&", 1, rest)
  | '>' :: '|' :: rest => some (">", 1, rest)
  | '>' :: rest => some (">", 1, rest)
  | '<' :: rest => some ("<", 0, rest)
  | _ => none

/-- Cuts a script into tokens.  `fuel` bounds their number. -/
def tokens? : Nat → List Char → Option (List Token)
  | 0, _ => none
  | _ + 1, [] => some []
  | fuel + 1, c :: rest =>
    if c = ' ' ∨ c = '\t' then tokens? fuel rest
    else if c = '#' then tokens? fuel (rest.dropWhile (· ≠ '\n'))
    else if c = '\\' ∧ rest.head? = some '\n' then tokens? fuel rest.tail
    else
      let digits := (c :: rest).takeWhile Char.isDigit
      let afterDigits := (c :: rest).drop digits.length
      match redirection? afterDigits, operator? (c :: rest) with
      | some (s, stream, more), _ =>
        let stream := if digits.isEmpty then stream else (String.ofList digits).toNat?.getD stream
        (tokens? fuel more).map (.redirect stream s :: ·)
      | none, some (s, more) => (tokens? fuel more).map (.operator s :: ·)
      | none, none =>
        if endsWord c then none
        else
          (readPieces false (rest.length + 2) (c :: rest)).bind fun (w, more) =>
            (tokens? fuel more).map (.word (joinTexts w) :: ·)

/-! ## 2. Commands -/

/-- The words that end a list. -/
def closers : List String := ["then", "else", "elif", "fi", "do", "done", "\x7d"]

def keyword? : List Token → Option String
  | .word w :: _ => plain? w
  | _ => none

/-- Passes a keyword. -/
def expect (k : String) (ts : List Token) : Option (List Token) :=
  if keyword? ts = some k then some ts.tail else none

/-- The redirections at the start. -/
def readRedirections : List Token → Option (List Redirection × List Token)
  | .redirect stream s :: .word w :: rest =>
    (readRedirections rest).bind fun (rs, rest) =>
      match s with
      | ">" => some (.write stream w :: rs, rest)
      | ">>" => some (.append stream w :: rs, rest)
      | "<" => some (.read w :: rs, rest)
      | _ => (plain? w).bind fun t => t.toNat?.map fun n => (.duplicate stream n :: rs, rest)
  | .redirect .. :: _ => none
  | ts => some ([], ts)

/-- A word that gives a variable a value. -/
def assignment? : Word → Option (String × Word)
  | .text s false :: rest =>
    let name := s.toList.takeWhile (· ≠ '=')
    if name.length < s.length ∧ isName (String.ofList name) then
      let value := String.ofList (s.toList.drop (name.length + 1))
      some (String.ofList name, if value.isEmpty then rest else .text value false :: rest)
    else none
  | _ => none

/-- Reads the words and redirections of a simple command. -/
def readSimple (assignments : List (String × Word)) (words : List Word)
    (redirections : List Redirection) : List Token → Option (Command × List Token)
  | .word w :: rest =>
    match words, assignment? w with
    | [], some a => readSimple (assignments ++ [a]) words redirections rest
    | _, _ => readSimple assignments (words ++ [w]) redirections rest
  | .redirect stream s :: .word w :: rest =>
    match readRedirections [.redirect stream s, .word w] with
    | some (rs, _) => readSimple assignments words (redirections ++ rs) rest
    | none => none
  | .redirect .. :: _ => none
  | ts => some (.simple assignments words redirections, ts)

/-- The words of a loop, up to the end of their line. -/
def readWords : List Token → List Word × List Token
  | .word w :: rest => let (ws, rest) := readWords rest; (w :: ws, rest)
  | .operator _ :: rest => ([], rest)
  | ts => ([], ts)

def skipSeparators (ts : List Token) : List Token := ts.dropWhile (· == .operator ";")

/-- The parts of the grammar. -/
inductive Part where
  | list | chain | command
  /-- What follows a condition: its test has been passed. -/
  | condition

/-- Reads a part.  `fuel` bounds the depth. -/
def readPart : Nat → Part → List Token → Option (Command × List Token)
  | 0, _, _ => none
  | fuel + 1, .list, ts => do
    let ts := skipSeparators ts
    match ts with
    | [] | .operator ")" :: _ => return (.nothing, ts)
    | _ =>
      if (keyword? ts).any closers.contains then return (.nothing, ts)
      else
        let (first, ts) ← readPart fuel .chain ts
        match ts with
        | .operator ";" :: rest =>
          let (second, ts) ← readPart fuel .list rest
          return (.sequence first second, ts)
        | .operator "&" :: rest =>
          let (second, ts) ← readPart fuel .list rest
          return (.sequence (.background first) second, ts)
        | _ => return (first, ts)
  | fuel + 1, .chain, ts => do
    let (first, ts) ← readPart fuel .command ts
    links fuel first ts
  | fuel + 1, .condition, ts => do
    let (test, ts) ← readPart fuel .list ts
    let (yes, ts) ← readPart fuel .list (← expect "then" ts)
    match keyword? ts with
    | some "elif" =>
      let (no, ts) ← readPart fuel .condition ts.tail
      return (.choose test yes no, ts)
    | some "else" =>
      let (no, ts) ← readPart fuel .list ts.tail
      return (.choose test yes no, ← expect "fi" ts)
    | _ => return (.choose test yes .nothing, ← expect "fi" ts)
  | fuel + 1, .command, ts => do
    match keyword? ts, ts with
    | some "!", _ =>
      let (c, ts) ← readPart fuel .command ts.tail
      return (.invert c, ts)
    | some "if", _ =>
      let (c, ts) ← readPart fuel .condition ts.tail
      closed c ts
    | some "while", _ => loop fuel true ts.tail
    | some "until", _ => loop fuel false ts.tail
    | some "for", _ =>
      match ts.tail with
      | .word name :: .word inWord :: rest =>
        if plain? inWord = some "in" then
          let (words, ts) := readWords rest
          let (body, ts) ← readPart fuel .list (← expect "do" (skipSeparators ts))
          closed (.each (← plain? name) words body) (← expect "done" ts)
        else none
      | _ => none
    | some "\x7b", _ =>
      let (body, ts) ← readPart fuel .list ts.tail
      closed body (← expect "\x7d" ts)
    | none, .operator "(" :: rest =>
      let (body, ts) ← readPart fuel .list rest
      match ts with
      | .operator ")" :: rest => closed (.aside body) rest
      | _ => none
    | _, _ =>
      if (keyword? ts).any closers.contains then none else readSimple [] [] [] ts
where
  /-- A compound command with the redirections after it. -/
  closed (c : Command) (ts : List Token) : Option (Command × List Token) :=
    (readRedirections ts).map fun (rs, ts) => (if rs.isEmpty then c else .group c rs, ts)
  loop (fuel : Nat) (wanted : Bool) (ts : List Token) : Option (Command × List Token) := do
    let (test, ts) ← readPart fuel .list ts
    let (body, ts) ← readPart fuel .list (← expect "do" ts)
    closed (.whilst wanted test body) (← expect "done" ts)
  /-- The commands that are joined to one by success or failure. -/
  links (fuel : Nat) (first : Command) (ts : List Token) : Option (Command × List Token) :=
    match fuel, ts with
    | fuel + 1, .operator "&&" :: rest => do
      let (second, ts) ← readPart fuel .command (skipSeparators rest)
      links fuel (.both first second) ts
    | fuel + 1, .operator "||" :: rest => do
      let (second, ts) ← readPart fuel .command (skipSeparators rest)
      links fuel (.either first second) ts
    | _, ts => some (first, ts)

/-- Reads a script. -/
def script? (text : String) : Option Command := do
  let cs := text.toList
  let ts ← tokens? (2 * cs.length + 1) cs
  match ← readPart (2 * ts.length + 8) .list ts with
  | (c, []) => return c
  | _ => none

end ServerWarden.Shell
