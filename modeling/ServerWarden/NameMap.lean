/-
# Maps from names, in name order

A list of entries whose names rise, so that walking the map visits the names in order (by code
point, which is also the order of their UTF-8 bytes) and two maps with the same entries are equal.
`insert` replaces the value of a name that is there already.
-/

namespace ServerWarden

/-- Entries with rising names. -/
abbrev NameMap (α : Type) := List (String × α)

namespace NameMap

variable {α β : Type}

/-- Adds an entry, or replaces the one of the same name. -/
def insert (name : String) (value : α) : NameMap α → NameMap α
  | [] => [(name, value)]
  | (n, v) :: rest =>
    if name = n then (name, value) :: rest
    else if name < n then (name, value) :: (n, v) :: rest
    else (n, v) :: insert name value rest

/-- The value of a name. -/
def find? (m : NameMap α) (name : String) : Option α :=
  m.lookup name

/-- The map without one name. -/
def erase (m : NameMap α) (name : String) : NameMap α :=
  m.filter fun e => e.1 != name

end NameMap
end ServerWarden
