/-
# The command line

The one argument is the configuration file; a version flag anywhere among the arguments asks for the
version alone.  Lines are filtered by the directives of the surroundings if there are any, and
otherwise by those of the configuration as soon as there is one.
-/
import ServerWarden.Config.Load
import ServerWarden.Log.Filter
import ServerWarden.Rehearsal.Site

namespace ServerWarden.CommandLine

def version : String := "0.4.0"

def versionLine : String := s!"LaunchSite version {version}"

def versionFlag : String := "--version"

def usage : String := "Usage: launchsite /path/to/launchsite.toml"

/-- What the program is started with. -/
structure Invocation where
  /-- The arguments after the program's own name. -/
  args : List String
  /-- The directives of the surroundings. -/
  directives : Option String
  host : Host
  /-- The seed that a random strategy comes up with. -/
  draw : Int

/-- What comes of it. -/
structure Report where
  /-- How the run ended, unless its session goes on. -/
  exit : Option ExitCode
  printed : List String
  /-- The lines on the error stream. -/
  complaints : List String
  /-- The log lines that pass the filter. -/
  log : List Log.Line
  files : FileTree

namespace Invocation

/-- A run that ends before there is a configuration. -/
def early (i : Invocation) (exit : ExitCode) (printed complaints : List String) : Report :=
  ⟨some exit, printed, complaints, [], i.host.files⟩

def mainLine (level : Log.Level) (text : String) : Log.Line := ⟨level, .main, text⟩

/-- A run with a configuration, after it was loaded: how it ends, what is said, and the files. -/
def runLoaded (i : Invocation) (c : Config) : Option ExitCode × List Log.Line × FileTree :=
  let starting := mainLine .info s!"LaunchSite {version} starting"
  match c.checkInstall i.host.files with
  | .error e => (some .unhandledError, [starting, mainLine .error e.fullMessage], i.host.files)
  | .ok () =>
    let launch := LaunchSpec.ofConfig c i.draw
    let updater := Updater.ofConfig c
    let keeper : Keeper :=
      ⟨launch.value, c.server.shutdownDelay, Keeper.defaultStartPoll, Keeper.defaultStopPoll⟩
    let site : Rehearsal.Site := {
      now := .start
      files := i.host.files
      searchPath := i.host.searchPath
      updater
      coordinator := .initial
      watches := #[]
      said := launch.log.reverse ++ [starting] }
    let ((), site) := site.work fun _ => updater.greet
    let (exit, site) := site.run (Supervisor.run ⟨.ofConfig c, keeper⟩)
    (exit, site.said.reverse, site.files)

/-- A run with a configuration file. -/
def runWith (i : Invocation) (path : String) : Report :=
  let filter := Log.Filter.read (i.directives.getD Config.defaultLogLevel)
  let loaded := Config.ofFile i.host path
  match loaded.value with
  | .error e =>
    let line := mainLine .error <|
      "Failed to load configuration from \"" ++ path ++ "\": " ++ e.fullMessage
    let log := (loaded.log ++ [line]).filter filter.shows
    ⟨some .unhandledError, [], filter.notes, log, i.host.files⟩
  | .ok c =>
    let later := if i.directives.isSome then filter else Log.Filter.read c.logLevel
    let notes := if i.directives.isSome then [] else later.notes
    let (exit, lines, files) := i.runLoaded c
    ⟨exit, [], filter.notes ++ notes,
      loaded.log.filter filter.shows ++ lines.filter later.shows, files⟩

def run (i : Invocation) : Report :=
  if i.args.contains versionFlag then i.early .success [versionLine] []
  else
    match i.args with
    | [] => i.early .invalidArgument [] [usage]
    | path :: _ => i.runWith path

end Invocation
end ServerWarden.CommandLine
