/-
# Paths

A path is text; a slash separates its steps.  `join` puts a slash between the two parts unless there
is one, and answers an absolute second part alone.  `parent` drops the last step, so that the parent
of `a/b/` is `a`.
-/

namespace ServerWarden.Path

/-- Whether a path starts at the root. -/
def isAbsolute (p : String) : Bool := p.toList.head? == some '/'

/-- The path of `q` seen from `p`. -/
def join (p q : String) : String :=
  if isAbsolute q then q
  else if p.isEmpty then q
  else if p.toList.getLast? = some '/' then p ++ q
  else p ++ "/" ++ q

/-- Splits at each slash. -/
def splitSteps (seen : List Char) : List Char → List String
  | [] => [String.ofList seen.reverse]
  | c :: rest =>
    if c = '/' then String.ofList seen.reverse :: splitSteps [] rest
    else splitSteps (c :: seen) rest

/-- The steps of a path as written, empty ones included. -/
def steps (p : String) : List String := splitSteps [] p.toList

/-- The path without its last step, nothing for the root and for the empty path. -/
def parent? (p : String) : Option String :=
  let dropSlashes (cs : List Char) := cs.dropWhile (· = '/')
  let body := dropSlashes p.toList.reverse
  if body.isEmpty then none
  else
    let kept := body.dropWhile (· ≠ '/')
    let bare := dropSlashes kept
    some <| String.ofList (if bare.isEmpty ∧ ¬ kept.isEmpty then ['/'] else bare.reverse)

end ServerWarden.Path
