/-
# Health of the server

What the server says about itself when it is asked: how many players are connected, and which
protocol it speaks.  An answer without both, or with one of another type, says nothing.
-/
import ServerWarden.Json.Reader

namespace ServerWarden

/-- A report of the server. -/
structure Health where
  players : Nat
  protocol : String
  deriving DecidableEq, Repr

/-- Reads a report. -/
def Health.read? (answer : String) : Option Health := do
  let v ← Json.readUsable? answer
  match v.member? "Players", v.member? "Protocol" with
  | some (.number n), some (.string (some protocol)) => return ⟨← n.nat64?, protocol⟩
  | _, _ => none

end ServerWarden
