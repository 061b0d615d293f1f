/-
# Launch parameters

The nested tables of a file become a flat map from names to values.  A nested parameter's name has
the names around it in front, with a point between, and the mark of its kind before all.  Tables are
walked in name order, so of two spellings of one name the later in that order wins.
-/
import ServerWarden.Config.Basic
import ServerWarden.Decimal.Shortest
import ServerWarden.Log
import ServerWarden.Toml.Value

namespace ServerWarden.Config

/-- Adds a table of launch parameters, in name order.  The name of a nested parameter has the names
around it in front, with a point between.  A value that no parameter can have is left out. -/
def flattenParams (mark : String) : List (String × Toml.Value) → LaunchParams → Logged LaunchParams
  | [], out => pure out
  | (key, value) :: rest, out => do
    let name := mark ++ key
    let out ← match value with
      | .boolean b => pure (NameMap.insert name (.flag b) out)
      | .integer n => pure (NameMap.insert name (.text (toString n)) out)
      | .float x => pure (NameMap.insert name (.text x.text) out)
      | .string s => pure (NameMap.insert name (.text s) out)
      | .table _ below => flattenParams (name ++ ".") below out
      | other => do
        Logged.say .warn .config <|
          "Ignoring launch parameter '" ++ name ++ "' with unsupported type " ++ other.typeName
        pure out
    flattenParams mark rest out

end ServerWarden.Config
