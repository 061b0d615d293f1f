/-
# Tokens of key-value text

The text of a game's manifests is braces and words.  A word in quotes may hold anything: a backslash
makes the next character literal, except that `\n` and `\t` stand for a newline and a tab.  A bare
word runs up to a blank, a brace or a quote.  Two slashes start a comment to the end of the line,
and a lone slash where a token would start is an error.  Every token and every error has the number
of the line on which it starts.
-/
import ServerWarden.Text.Blank

namespace ServerWarden.KeyValues

/-- What is wrong with a text. -/
inductive Problem where
  | straySlash
  | openQuote
  | missingClose
  | strayClose
  | keyIsOpen
  | noValue (key : String)
  deriving DecidableEq, Repr

def Problem.message : Problem → String
  | .straySlash => "unexpected '/'"
  | .openQuote => "unterminated string"
  | .missingClose => "missing closing '\x7d'"
  | .strayClose => "unexpected '\x7d'"
  | .keyIsOpen => "expected a key, found '\x7b'"
  | .noValue key => "key '" ++ key ++ "' has no value"

/-- A problem with the line that it is on. -/
structure Error where
  line : Nat
  problem : Problem
  deriving DecidableEq, Repr

inductive Token where
  | openBlock (line : Nat)
  | closeBlock (line : Nat)
  | word (text : List Char) (line : Nat)
  deriving DecidableEq, Repr

def Token.line : Token → Nat
  | .openBlock line | .closeBlock line | .word _ line => line

/-- The characters that a bare word stops at. -/
def isBareEnd (c : Char) : Bool :=
  Text.isBlank c || c == '{' || c == '}' || c == '"'

/-- What a reader of tokens is inside of. -/
inductive Place where
  /-- Between tokens. -/
  | gap
  /-- After a slash that must start a comment. -/
  | slash
  /-- In a comment. -/
  | comment
  /-- In a bare word, whose characters are held in reverse. -/
  | bare (seen : List Char)
  /-- In a quoted word that started on a line. -/
  | quoted (start : Nat) (seen : List Char)
  /-- After a backslash in a quoted word. -/
  | escaped (start : Nat) (seen : List Char)
  deriving DecidableEq, Repr

/-- The character that an escape stands for. -/
def unescape (c : Char) : Char :=
  if c = 'n' then '\n' else if c = 't' then '\t' else c

/-- The place after a character between tokens, and the token that it is by itself. -/
def startToken (line : Nat) (c : Char) : Place × Option Token :=
  if Text.isBlank c then (.gap, none)
  else if c = '{' then (.gap, some (.openBlock line))
  else if c = '}' then (.gap, some (.closeBlock line))
  else if c = '/' then (.slash, none)
  else if c = '"' then (.quoted line [], none)
  else (.bare [c], none)

/-- Reads tokens from a place on a line. -/
def tokensFrom : Nat → Place → List Char → Except Error (List Token)
  | line, place, [] =>
    match place with
    | .gap | .comment => .ok []
    | .slash => .error ⟨line, .straySlash⟩
    | .bare seen => .ok [.word seen.reverse line]
    | .quoted start _ => .error ⟨start, .openQuote⟩
    | .escaped start seen => .ok [.word seen.reverse start]
  | line, place, c :: rest =>
    match place with
    | .gap =>
      let (next, token) := startToken line c
      let after := tokensFrom (if c = '\n' then line + 1 else line) next rest
      match token with
      | some t => after.map (t :: ·)
      | none => after
    | .slash => if c = '/' then tokensFrom line .comment rest else .error ⟨line, .straySlash⟩
    | .comment =>
      if c = '\n' then tokensFrom (line + 1) .gap rest else tokensFrom line .comment rest
    | .bare seen =>
      if isBareEnd c then
        let (next, token) := startToken line c
        let after := tokensFrom (if c = '\n' then line + 1 else line) next rest
        (after.map fun ts => match token with
          | some t => t :: ts
          | none => ts).map (.word seen.reverse line :: ·)
      else tokensFrom line (.bare (c :: seen)) rest
    | .quoted start seen =>
      if c = '"' then (tokensFrom line .gap rest).map (.word seen.reverse start :: ·)
      else if c = '\\' then tokensFrom line (.escaped start seen) rest
      else tokensFrom (if c = '\n' then line + 1 else line) (.quoted start (c :: seen)) rest
    | .escaped start seen => tokensFrom line (.quoted start (unescape c :: seen)) rest

/-- The tokens of a text. -/
def tokens (cs : List Char) : Except Error (List Token) :=
  tokensFrom 1 .gap cs

end ServerWarden.KeyValues
