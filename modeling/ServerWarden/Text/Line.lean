/-
# Lines of a text

A line ends at a line feed, and a carriage return right before that feed belongs to the ending.
The last line need not be ended; a carriage return at its end is then part of it, and an empty
last line does not count.  `unlines` puts lines back together with one feed between two of them.
-/

namespace ServerWarden.Text

/-- Drops one carriage return from the end of a line. -/
def dropReturn (line : List Char) : List Char :=
  match line.getLast? with
  | some '\r' => line.dropLast
  | _ => line

/-- Splits off the first line, which `seen` holds in reverse, then the others. -/
def linesFrom (seen : List Char) : List Char → List (List Char)
  | [] => if seen.isEmpty then [] else [seen.reverse]
  | c :: rest =>
    if c = '\n' then dropReturn seen.reverse :: linesFrom [] rest
    else linesFrom (c :: seen) rest

/-- The lines of a text, without their endings. -/
def lineChars (cs : List Char) : List (List Char) :=
  linesFrom [] cs

/-- The lines of a text, without their endings. -/
def lines (s : String) : List String :=
  (lineChars s.toList).map String.ofList

/-- Lines with one line feed between two of them. -/
def unlines (ls : List (List Char)) : List Char :=
  List.intercalate ['\n'] ls

end ServerWarden.Text
