/-
# Building tables

The rules for placing a value under a name.  A name may be defined once.  On the way to the last
part of a name, missing tables are made, a repeated header leads into its latest table, and a table
in braces or a plain value stops the walk.  Dotted names extend only tables that no header has
defined; a header defines only a table that longer headers passed through.
-/
import ServerWarden.Toml.Value

namespace ServerWarden.Toml

abbrev Entries := NameMap Value

/-- Changes the table at the end of a walk.  `dotted` tells a dotted name from a header; `edit`
gets the origin and the entries of the table that is reached. -/
def Entries.walk (dotted : Bool) (origin : TableOrigin) (entries : Entries)
    (edit : TableOrigin → Entries → Option Entries) : List String → Option Entries
  | [] => edit origin entries
  | name :: path =>
    match NameMap.find? entries name with
    | none => do
      let made := if dotted then TableOrigin.dotted else .implied
      let below ← Entries.walk dotted made [] edit path
      return NameMap.insert name (.table made below) entries
    | some (.table origin below) => do
      if origin = .inline then none
      else if dotted && !origin.isOpen then none
      else
        let below ← Entries.walk dotted origin below edit path
        return NameMap.insert name (.table origin below) entries
    | some (.tables (.table origin below :: older)) => do
      let below ← Entries.walk dotted origin below edit path
      return NameMap.insert name (.tables (.table origin below :: older)) entries
    | some _ => none

/-- Places a value under a new name of the table that a dotted name reaches.  The last table has to
be one that dotted names built, unless the name has a single part. -/
def Entries.define (entries : Entries) (path : List String) (name : String) (value : Value) :
    Option Entries :=
  Entries.walk true .header entries (fun origin below =>
    if (origin == .dotted) == path.isEmpty then none
    else if (NameMap.find? below name).isSome then none
    else some (NameMap.insert name value below)) path

/-- Opens the table that a header names. -/
def Entries.openTable (entries : Entries) (path : List String) (name : String) : Option Entries :=
  Entries.walk false .header entries (fun _ below =>
    match NameMap.find? below name with
    | none => some (NameMap.insert name (.table .header []) below)
    | some (.table .implied kept) => some (NameMap.insert name (.table .header kept) below)
    | some _ => none) path

/-- Opens one more table of a repeated header. -/
def Entries.pushTable (entries : Entries) (path : List String) (name : String) : Option Entries :=
  Entries.walk false .header entries (fun _ below =>
    match NameMap.find? below name with
    | none => some (NameMap.insert name (.tables [.table .header []]) below)
    | some (.tables older) =>
      some (NameMap.insert name (.tables (.table .header [] :: older)) below)
    | some _ => none) path

/-- Places a value under a dotted name of the table that the last header opened. -/
def Entries.assign (entries : Entries) (header : List String) (path : List String) (name : String)
    (value : Value) : Option Entries :=
  Entries.walk false .header entries (fun _ below => Entries.define below path name value) header

end ServerWarden.Toml
