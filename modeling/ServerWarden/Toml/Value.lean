/-
# Values of a settings document

A document is a table of named values.  Each table remembers how it came about, because that
decides what later lines may still add to it: a table named by its own header is complete, one that
only appeared inside a longer name is open, one built by dotted names takes more dotted names, and
one written in braces takes nothing.
-/
import ServerWarden.NameMap
import ServerWarden.Decimal.Binary64

namespace ServerWarden.Toml

/-- How a table came about. -/
inductive TableOrigin where
  /-- It has a header of its own, or is the document. -/
  | header
  /-- It was only passed through by a longer header. -/
  | implied
  /-- It was only passed through by a dotted name. -/
  | dotted
  /-- It is written in braces. -/
  | inline
  deriving DecidableEq, Repr

/-- Whether a later header or dotted name may still define the table. -/
def TableOrigin.isOpen : TableOrigin → Bool
  | .implied | .dotted => true
  | .header | .inline => false

/-- A value of a document. -/
inductive Value where
  | string (text : String)
  | integer (n : Int)
  | float (x : Decimal.Binary64)
  | boolean (b : Bool)
  /-- A date, a time or both, in its one normal spelling. -/
  | datetime (text : String)
  | array (items : List Value)
  /-- The tables of a repeated `[[header]]`, the latest first. -/
  | tables (items : List Value)
  | table (origin : TableOrigin) (entries : List (String × Value))
  deriving Inhabited

/-- The name of a value's type, as a message spells it. -/
def Value.typeName : Value → String
  | .string _ => "string"
  | .integer _ => "integer"
  | .float _ => "float"
  | .boolean _ => "boolean"
  | .datetime _ => "datetime"
  | .array _ | .tables _ => "array"
  | .table _ _ => "table"

/-- The items of an array, in order. -/
def Value.items? : Value → Option (List Value)
  | .array items => some items
  | .tables items => some items.reverse
  | _ => none

end ServerWarden.Toml
