/-
# Which lines are shown

A filter is a list of directives with commas between them.  A directive is a level, the name of a
part of the program, or both with an equals sign between; a name alone lets all levels pass.  Of the
directives that fit a line the one with the longest name decides.  A filter without any directive
shows errors only.  Directives that cannot be read are passed over, with a note.
-/
import ServerWarden.Log
import ServerWarden.Text.Blank

namespace ServerWarden.Log

/-- How loud a line has to be to pass; nothing passes a missing level. -/
abbrev Threshold := Option Level

/-- What decides on the lines of a part of the program, of all parts if it names none. -/
structure Directive where
  target : Option String
  threshold : Threshold
  deriving DecidableEq, Repr

/-- A filter, with the notes on directives that were passed over. -/
structure Filter where
  directives : List Directive
  notes : List String
  deriving DecidableEq, Repr

namespace Threshold

/-- The quietest level.  Lines that are quieter still are not said here. -/
def all : Threshold := some .debug

/-- The threshold of a word or digit. -/
def ofText? (s : String) : Option Threshold :=
  let digits := if s.startsWith "+" then (s.drop 1).toString else s
  let number := if digits.toList.all Char.isDigit ∧ !digits.isEmpty then digits.toNat? else none
  match number with
  | some 0 => some none
  | some 1 => some (some .error)
  | some 2 => some (some .warn)
  | some 3 => some (some .info)
  | some 4 | some 5 => some all
  | _ =>
    match String.ofList (s.toList.map Char.toLower) with
    | "off" => some none
    | "error" | "" => some (some .error)
    | "warn" => some (some .warn)
    | "info" => some (some .info)
    | "debug" | "trace" => some all
    | _ => none

/-- The threshold after an equals sign, where nothing stands for all. -/
def afterEquals? (s : String) : Option Threshold := if s.isEmpty then some all else ofText? s

end Threshold

/-- Why a directive cannot be read. -/
inductive DirectiveFault where
  | malformed
  | unknownLevel
  deriving DecidableEq, Repr

def DirectiveFault.message : DirectiveFault → String
  | .malformed => "invalid filter directive"
  | .unknownLevel =>
    "error parsing level filter: expected one of \"off\", \"error\", \"warn\", \"info\", " ++
      "\"debug\", \"trace\", or a number 0-5"

namespace Directive

/-- Whether a directive may begin with a character. -/
def mayBegin (c : Char) : Bool :=
  c.isAlphanum || c = '-' || c = ':' || c = '_' || 0x7F < c.toNat

/-- Reads a directive.  One that is about spans has no say on lines, and gives nothing. -/
def read? (s : String) : Except DirectiveFault (Option Directive) :=
  let cs := s.toList
  let name := cs.takeWhile fun c => c ≠ '=' && c ≠ '['
  match cs with
  | [] => .ok (some ⟨none, .all⟩)
  | c :: _ =>
    if c = '[' then span (cs.drop 1)
    else if !mayBegin c then .error .malformed
    else
      match cs.drop name.length with
      | [] =>
        match Threshold.ofText? s with
        | some threshold => .ok (some ⟨none, threshold⟩)
        | none => .ok (some ⟨some s, .all⟩)
      | '=' :: level =>
        match Threshold.afterEquals? (String.ofList level) with
        | some threshold => .ok (some ⟨some (String.ofList name), threshold⟩)
        | none => .error .unknownLevel
      | _ :: rest => span rest
where
  /-- What follows an opening bracket. -/
  span (cs : List Char) : Except DirectiveFault (Option Directive) :=
    match cs.dropWhile (· ≠ ']') with
    | [']'] => .ok none
    | ']' :: '=' :: level =>
      match Threshold.afterEquals? (String.ofList level) with
      | some _ => .ok none
      | none => .error .unknownLevel
    | _ => .error .malformed

/-- Whether a directive is about a part of the program. -/
def fits (d : Directive) (target : String) : Bool :=
  d.target.all fun name => name.toList.isPrefixOf target.toList

def nameLength (d : Directive) : Nat := (d.target.map String.utf8ByteSize).getD 0

end Directive

namespace Filter

/-- Reads a filter. -/
def read (text : String) : Filter :=
  let parts := (text.splitOn ",").filter fun s => !s.isEmpty
  let f : Filter := parts.foldl (fun f part =>
    match Directive.read? (Text.trim part) with
    | .ok (some d) => { f with directives := d :: f.directives.filter fun e => e.target ≠ d.target }
    | .ok none => f
    | .error e => { f with notes := f.notes ++ [s!"ignoring `{part}`: {e.message}"] }) ⟨[], []⟩
  if f.directives.isEmpty then { f with directives := [⟨none, some .error⟩] } else f

/-- The directive that decides on a part of the program. -/
def decisive? (f : Filter) (target : String) : Option Directive :=
  (f.directives.filter fun d => d.fits target).foldl (fun best d =>
    match best with
    | some b => if b.nameLength < d.nameLength then some d else some b
    | none => some d) none

/-- Whether a line is shown. -/
def shows (f : Filter) (l : Line) : Bool :=
  match f.decisive? l.speaker.target with
  | some ⟨_, some least⟩ => decide (least.rank ≤ l.level.rank)
  | _ => false

end Filter
end ServerWarden.Log
