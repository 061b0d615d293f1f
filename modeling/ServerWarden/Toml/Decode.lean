/-
# Settings from values

How a document's values become settings.  Types are not converted: a number is no text and a text no
number, and a whole number must fit its field.  A group of settings is a table, whose unknown names
are ignored, or an array with the settings in their order; what is left out takes its default.
`generic?` reads a value as plain data, without the origins of its tables.
-/
import ServerWarden.Time.Phrase
import ServerWarden.Toml.Datetime
import ServerWarden.Toml.Reader

namespace ServerWarden.Toml

/-- The name under which a date is handed over where a table is expected. -/
def datetimeKey : String := "$__toml_private_datetime"

/-- Whether a value that nothing reads can be passed over: its whole numbers fit 128 bits. -/
def Value.canSkip : Value → Bool
  | .integer n => -(Nat.pow 2 127 : Int) ≤ n && n < Nat.pow 2 128
  | .array items | .tables items => allItems items
  | .table _ entries => allEntries entries
  | _ => true
where
  allItems : List Value → Bool
    | [] => true
    | v :: rest => v.canSkip && allItems rest
  allEntries : List (String × Value) → Bool
    | [] => true
    | (_, v) :: rest => v.canSkip && allEntries rest

/-- The date that an entry stands for, if its table is a date handed over. -/
def handedDate? (entries : List (String × Value)) : Option Value :=
  match entries with
  | (name, v) :: _ => if name = datetimeKey then some v else none
  | [] => none

/-- A value as plain data: whole numbers fit 64 bits, and tables lose their origins. -/
def Value.generic? : Value → Option Value
  | .integer n => if -(Nat.pow 2 63 : Int) ≤ n ∧ n < Nat.pow 2 63 then some (.integer n) else none
  | .array items => (genericItems items).map .array
  | .tables items => (genericItems items).map fun vs => .array vs.reverse
  | .table _ entries =>
    match handedDate? entries with
    | some (.string s) => (Datetime.normal? s.toList).map .datetime
    | some _ => none
    | none => (genericEntries entries).map (.table .header ·)
  | v => some v
where
  genericItems : List Value → Option (List Value)
    | [] => some []
    | v :: rest => do return (← v.generic?) :: (← genericItems rest)
  genericEntries : List (String × Value) → Option (List (String × Value))
    | [] => some []
    | (name, v) :: rest => do return (name, ← v.generic?) :: (← genericEntries rest)

/-- A reader of a setting. -/
abbrev Decoder (α : Type) := Value → Option α

namespace Decoder

def bool : Decoder Bool
  | .boolean b => some b
  | _ => none

def text : Decoder String
  | .string s => some s
  | _ => none

/-- A whole number from `low` to `high`. -/
def integer (low high : Int) : Decoder Int
  | .integer n => if low ≤ n ∧ n ≤ high then some n else none
  | _ => none

/-- A number of 32 bits with a sign. -/
def int32 : Decoder Int := integer (-2147483648) 2147483647

/-- A whole number below `2 ^ bits`. -/
def unsigned (bits : Nat) : Decoder Nat := fun v =>
  (integer 0 (Nat.pow 2 bits - 1 : Nat) v).map Int.toNat

/-- A duration, written as a phrase. -/
def duration : Decoder Duration
  | .string s => Duration.ofPhrase? s
  | _ => none

def list {α : Type} (item : Decoder α) : Decoder (List α) := fun v => do
  (← v.items?).mapM item

/-- A table of plain data.  A date counts as a table that holds its text under `datetimeKey`. -/
def entries : Decoder (List (String × Value))
  | .table _ es => Value.generic?.genericEntries es
  | .datetime s => some [(datetimeKey, .string s)]
  | _ => none

/-- One of several names, which may also be the only name of a table with an empty value. -/
def choice {α : Type} (named : String → Option α) : Decoder α
  | .string s => named s
  | .table _ [(name, .table _ [])] => named name
  | .table _ [(name, .array [])] => named name
  | _ => none

end Decoder

/-- The settings of a group by name, as far as they are given. -/
abbrev Group := List (String × Value)

/-- The settings of a group that has the given names, in this order where no names are written. -/
def Value.group? (names : List String) : Value → Option Group
  | .table _ entries =>
    if entries.all fun e => names.contains e.1 || e.2.canSkip then some entries else none
  | .datetime _ => some []
  | v => v.items?.map (names.zip ·)

/-- The setting of a name, or its default if it is not given. -/
def Group.get (g : Group) {α : Type} (name : String) (decode : Decoder α) (default : α) :
    Option α :=
  match g.lookup name with
  | some v => decode v
  | none => some default

end ServerWarden.Toml
