/-
# Log lines

A line has a level, the part of the program that speaks, and a text.  `Logged` is a computation that
may say something on its way: its lines come in the order in which they were said.
-/

namespace ServerWarden

namespace Log

inductive Level where
  | debug | info | warn | error
  deriving DecidableEq, Repr

/-- How loud a level is: a louder line passes every filter that a quieter one passes. -/
def Level.rank : Level → Nat
  | .debug => 1
  | .info => 2
  | .warn => 3
  | .error => 4

def Level.name : Level → String
  | .debug => "DEBUG"
  | .info => "INFO"
  | .warn => "WARN"
  | .error => "ERROR"

/-- The part of the program that says a line. -/
inductive Speaker where
  | main | config | launch | server | child | reason | coordinator | supervisor | maintenance
  | updater | steam | framework | download | rcon
  deriving DecidableEq, Repr

/-- The name under which a filter knows a part of the program. -/
def Speaker.target : Speaker → String
  | .main => "launchsite"
  | .config => "launchsite::config"
  | .launch => "launchsite::core::process::launch"
  | .server => "launchsite::core::process"
  | .child => "launchsite::core::process::backend"
  | .reason => "launchsite::core::reason"
  | .coordinator => "launchsite::core::scheduler"
  | .supervisor => "launchsite::core::supervisor"
  | .maintenance => "launchsite::core::supervisor::maintenance"
  | .updater => "launchsite::core::updater"
  | .steam => "launchsite::core::updater::steam"
  | .framework => "launchsite::core::updater::framework"
  | .download => "launchsite::core::updater::download"
  | .rcon => "launchsite::core::rcon::client"

structure Line where
  level : Level
  speaker : Speaker
  text : String
  deriving DecidableEq, Repr

end Log

/-- A value with the lines that were said on the way to it. -/
structure Logged (α : Type) where
  value : α
  log : List Log.Line

namespace Logged

/-- A computation that only says a line. -/
def say (level : Log.Level) (speaker : Log.Speaker) (text : String) : Logged Unit :=
  ⟨(), [⟨level, speaker, text⟩]⟩

instance : Monad Logged where
  pure a := ⟨a, []⟩
  bind x f := let y := f x.value; ⟨y.value, x.log ++ y.log⟩

@[simp] theorem value_pure {α : Type} (a : α) : (pure a : Logged α).value = a := rfl

@[simp] theorem log_pure {α : Type} (a : α) : (pure a : Logged α).log = [] := rfl

@[simp] theorem value_bind {α β : Type} (x : Logged α) (f : α → Logged β) :
    (x >>= f).value = (f x.value).value := rfl

@[simp] theorem log_bind {α β : Type} (x : Logged α) (f : α → Logged β) :
    (x >>= f).log = x.log ++ (f x.value).log := rfl

end Logged
end ServerWarden
