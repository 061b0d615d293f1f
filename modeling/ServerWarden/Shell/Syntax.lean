/-
# Scripts of the small shell

The programs of a rehearsal are scripts.  A word is a list of pieces; what comes out of a quoted
piece stays together, and the rest is cut at blanks.
-/

namespace ServerWarden.Shell

/-- A piece of a word. -/
inductive Piece where
  | text (s : String) (isQuoted : Bool)
  | parameter (name : String) (isQuoted : Bool)
  /-- All arguments of the script. -/
  | arguments (isQuoted : Bool)
  /-- A formula on numbers. -/
  | formula (cs : List Char) (isQuoted : Bool)
  deriving DecidableEq, Repr

abbrev Word := List Piece

/-- Where a stream of a command leads. -/
inductive Redirection where
  | write (stream : Nat) (target : Word)
  | append (stream : Nat) (target : Word)
  | read (source : Word)
  | duplicate (stream other : Nat)
  deriving DecidableEq, Repr

inductive Command where
  | nothing
  | simple (assignments : List (String × Word)) (words : List Word)
      (redirections : List Redirection)
  | sequence (first second : Command)
  /-- The second only if the first succeeds. -/
  | both (first second : Command)
  /-- The second only if the first fails. -/
  | either (first second : Command)
  | invert (c : Command)
  | choose (test yes no : Command)
  /-- The body as long as the test has the wanted outcome. -/
  | whilst (wanted : Bool) (test body : Command)
  | each (name : String) (words : List Word) (body : Command)
  | group (body : Command) (redirections : List Redirection)
  /-- A script of its own, with the variables of this one. -/
  | aside (body : Command)
  /-- A script of its own that is not waited for. -/
  | background (body : Command)
  deriving Repr, Inhabited

/-- A word in plain text, as keywords are. -/
def plain? : Word → Option String
  | [.text s false] => some s
  | _ => none

/-- Whether a text can name a variable. -/
def isName (s : String) : Bool :=
  match s.toList with
  | [] => false
  | c :: rest => (c.isAlpha || c = '_') && rest.all fun c => c.isAlphanum || c = '_'

end ServerWarden.Shell
