/-
# Records in JSON

A record with named fields may be written as an object, whose other members are passed over, or as
an array of its fields in order.  A field may be given once.  Missing fields at the end of the array
count as not given, and there may be no more items than fields.
-/
import ServerWarden.Json.Reader

namespace ServerWarden.Json

/-- The fields of a record by name, as far as they are given. -/
abbrev Record := List (String × Json)

/-- The members of an object that are among the names, if no name comes twice. -/
def fieldsOf? (names : List String) : List (Option String × Json) → Option Record
  | [] => some []
  | (none, _) :: _ => none
  | (some name, v) :: rest => do
    let others ← fieldsOf? names rest
    if !names.contains name then some others
    else if (others.lookup name).isSome then none
    else some ((name, v) :: others)

/-- The fields of a record that has the given names, in this order where no names are written. -/
def record? (names : List String) : Json → Option Record
  | .object members => fieldsOf? names members
  | .array items => if items.length ≤ names.length then some (names.zip items) else none
  | _ => none

/-- A text that is usable. -/
def asText? : Json → Option String
  | .string t => t
  | _ => none

/-- A whole number of 32 bits with a sign. -/
def asInt32? : Json → Option Int
  | .number n =>
    match n.int? with
    | some v => if -2147483648 ≤ v ∧ v < 2147483648 then some v else none
    | none => none
  | _ => none

/-- A value that may be absent in the form of `null`. -/
def asOptional? {α : Type} (read : Json → Option α) : Json → Option (Option α)
  | .null => some none
  | v => (read v).map some

def asList? {α : Type} (read : Json → Option α) : Json → Option (List α)
  | .array items => items.mapM read
  | _ => none

/-- A field that must be given. -/
def Record.required {α : Type} (r : Record) (name : String) (read : Json → Option α) : Option α :=
  (r.lookup name).bind read

/-- A field with a default. -/
def Record.optional {α : Type} (r : Record) (name : String) (read : Json → Option α)
    (default : α) : Option α :=
  match r.lookup name with
  | some v => read v
  | none => some default

end ServerWarden.Json
