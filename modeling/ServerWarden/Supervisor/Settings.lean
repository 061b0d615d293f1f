/-
# How a session is supervised

The part of a configuration that the supervisor goes by: what is checked at which occasion, how
installs are retried, and how often the server is looked at.
-/
import ServerWarden.Config.Basic

namespace ServerWarden

/-- What is checked at an occasion. -/
structure UpdatePolicy where
  server : Bool
  framework : Bool
  deriving DecidableEq, Repr

/-- How installs are repeated until one is confirmed. -/
structure RetryPolicy where
  delay : Duration
  /-- The most attempts.  Zero sets no bound. -/
  maxAttempts : UInt32
  deriving DecidableEq, Repr

structure SupervisorSettings where
  autoRestart : Bool
  healthInterval : Duration
  /-- Zero turns checks at intervals off. -/
  updateInterval : Duration
  onStartup : UpdatePolicy
  onInterval : UpdatePolicy
  onRelaunch : UpdatePolicy
  frameworkOnServerUpdate : Bool
  frameworkName : String
  serverRetry : RetryPolicy
  frameworkRetry : RetryPolicy
  reasonPath : Option String
  deriving DecidableEq, Repr

namespace SupervisorSettings

/-- How often the server is looked at. -/
def defaultHealthInterval : Duration := .ofSecs 60

/-- The settings of a configuration. -/
def ofConfig (c : Config) : SupervisorSettings where
  autoRestart := c.server.autoRestart
  healthInterval := defaultHealthInterval
  updateInterval := c.update.interval
  onStartup := ⟨c.update.server.onStartup, c.update.framework.onStartup⟩
  onInterval := ⟨c.update.server.onInterval, c.update.framework.onInterval⟩
  onRelaunch := ⟨c.update.server.onRelaunch, c.update.framework.onRelaunch⟩
  frameworkOnServerUpdate :=
    c.update.framework.kind ≠ .none && c.update.framework.onServerUpdate
  frameworkName := c.update.framework.kind.title
  serverRetry := ⟨c.update.server.retryDelay, .ofNat c.update.maxInstallAttempts⟩
  frameworkRetry := ⟨c.update.framework.retryDelay, .ofNat c.update.maxInstallAttempts⟩
  reasonPath := c.server.reasonPath

end SupervisorSettings
end ServerWarden
