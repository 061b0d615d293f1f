/-
# Configuration

What a run is told: where the server is installed, how it is started, stopped and updated, and how
its console is reached.  A `Config` is complete: defaults are filled in, the seed is decided as far
as it can be, and launch parameters are flat.
-/
import ServerWarden.NameMap
import ServerWarden.Time.Duration

namespace ServerWarden

/-- The plugin frameworks that can be kept up to date. -/
inductive Framework where
  | none | carbon | oxide
  deriving DecidableEq, Repr, Inhabited

/-- The name that messages use. -/
def Framework.title : Framework → String
  | .none => "none"
  | .carbon => "Carbon"
  | .oxide => "Oxide"

/-- How the world seed is chosen. -/
inductive SeedStrategy where
  | fixed (seed : Int)
  /-- The first of the list. -/
  | list (seeds : List Int)
  | random
  deriving DecidableEq, Repr

/-- The seed of a launch.  `draw` is the number that a random strategy comes up with. -/
def SeedStrategy.select (draw : Int) : SeedStrategy → Int
  | .fixed seed => seed
  | .list seeds => seeds.head?.getD 1
  | .random => draw

/-- The value of a launch parameter: a flag is given by its name alone or left out. -/
inductive LaunchValue where
  | flag (on : Bool)
  | text (t : String)
  deriving DecidableEq, Repr

/-- Launch parameters by name, the mark in front included. -/
abbrev LaunchParams := NameMap LaunchValue

/-- Settings of the server process. -/
structure ServerConfig where
  autoRestart : Bool
  /-- How long a shutdown is held back while players are connected. -/
  shutdownDelay : Duration
  /-- A file whose text, if it is there, is the next shutdown reason. -/
  reasonPath : Option String
  launchBinary : Option String
  deriving DecidableEq, Repr

/-- Which console settings are handed on as launch parameters. -/
structure Passthrough where
  ip : Bool
  port : Bool
  deriving DecidableEq, Repr

/-- Settings of the remote console. -/
structure RconConfig where
  ip : String
  port : Nat
  password : String
  log : Bool
  chatIdentifier : Int
  passthrough : Passthrough
  deriving DecidableEq, Repr

/-- When the server itself is checked for updates. -/
structure ServerUpdateConfig where
  onStartup : Bool
  onInterval : Bool
  onRelaunch : Bool
  retryDelay : Duration
  deriving DecidableEq, Repr

/-- When the plugin framework is checked for updates. -/
structure FrameworkUpdateConfig where
  kind : Framework
  onStartup : Bool
  onInterval : Bool
  onRelaunch : Bool
  /-- Also whenever the server was found to need an update. -/
  onServerUpdate : Bool
  retryDelay : Duration
  deriving DecidableEq, Repr

structure UpdateConfig where
  /-- The time between two checks.  Zero turns them off. -/
  interval : Duration
  /-- The most installs in a row.  Zero sets no bound. -/
  maxInstallAttempts : Nat
  server : ServerUpdateConfig
  framework : FrameworkUpdateConfig
  deriving DecidableEq, Repr

structure Config where
  logLevel : String
  installPath : String
  identity : String
  downloadPath : String
  server : ServerConfig
  rcon : RconConfig
  seed : SeedStrategy
  /-- Where SteamCMD was found, if it was. -/
  steamCmdPath : Option String
  update : UpdateConfig
  launchMinus : LaunchParams
  launchPlus : LaunchParams
  deriving DecidableEq, Repr

namespace Config

/-- The log filter in force until a configuration says otherwise. -/
def defaultLogLevel : String := "info"

/-- The directory for downloads, below the one for temporary files. -/
def downloadDirectory : String := "launchsite"

def defaultRetryDelay : Duration := .ofSecs 10

end Config

namespace ServerConfig
def default : ServerConfig := ⟨false, .zero, none, none⟩
end ServerConfig

namespace RconConfig
def default : RconConfig := ⟨"127.0.0.1", 28016, "", false, -1, ⟨false, false⟩⟩
end RconConfig

namespace ServerUpdateConfig
def default : ServerUpdateConfig := ⟨false, false, false, Config.defaultRetryDelay⟩
end ServerUpdateConfig

namespace FrameworkUpdateConfig
def default : FrameworkUpdateConfig :=
  ⟨.none, false, false, false, false, Config.defaultRetryDelay⟩
end FrameworkUpdateConfig

namespace UpdateConfig
def default : UpdateConfig := ⟨.zero, 0, .default, .default⟩
end UpdateConfig

end ServerWarden
