/-
# Update policy

An interval between update checks and the checks that use it have to agree: an interval that no
check uses is dropped, and so is a check that has no interval.  Without a framework there is nothing
to check for one.  `normalize` does all three, in an order in which one pass is enough.
-/
import ServerWarden.Config.Basic
import ServerWarden.Log

namespace ServerWarden.UpdateConfig

/-- Without a framework there is nothing to keep up to date. -/
def clearFramework (u : UpdateConfig) : UpdateConfig :=
  if u.framework.kind = .none then
    { u with framework := { u.framework with
        onStartup := false, onInterval := false, onRelaunch := false, onServerUpdate := false } }
  else u

/-- An interval that no check uses is dropped. -/
def dropInterval (u : UpdateConfig) : Logged UpdateConfig := do
  if !u.interval.isZero && !u.server.onInterval && !u.framework.onInterval then
    Logged.say .warn .config <|
      s!"Ignoring update.interval = {u.interval.text} because update.server and " ++
        "update.framework on_interval are both false"
    return { u with interval := .zero }
  else return u

/-- Checks that have no interval are dropped. -/
def dropChecks (u : UpdateConfig) : Logged UpdateConfig := do
  if u.interval.isZero then
    if u.server.onInterval then
      Logged.say .warn .config
        "Ignoring update.server.on_interval = true because update.interval is 0"
    if u.framework.onInterval then
      Logged.say .warn .config
        "Ignoring update.framework.on_interval = true because update.interval is 0"
    return { u with
      server := { u.server with onInterval := false }
      framework := { u.framework with onInterval := false } }
  else return u

/-- Makes the interval and the checks agree. -/
def normalize (u : UpdateConfig) : Logged UpdateConfig := do
  let u ← dropInterval (clearFramework u)
  dropChecks u

end ServerWarden.UpdateConfig
