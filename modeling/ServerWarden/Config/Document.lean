/-
# What a configuration file says

The groups of a configuration file and the defaults of what it leaves out.  Nothing is looked up or
checked yet: the seed is a strategy with its numbers, the tool's path is only named, and launch
parameters are still nested tables.
-/
import ServerWarden.Config.Basic
import ServerWarden.Toml.Decode

namespace ServerWarden.Config

open Toml (Value Decoder Group)

inductive SeedKind where
  | fixed | list | random
  deriving DecidableEq, Repr

structure SeedSettings where
  kind : SeedKind
  fixed : Option Int
  list : List Int
  deriving DecidableEq, Repr

structure InstallSettings where
  path : String
  identity : String
  deriving DecidableEq, Repr

structure LaunchSettings where
  minus : List (String × Value)
  plus : List (String × Value)

/-- A configuration file, group by group. -/
structure Document where
  logLevel : String
  install : InstallSettings
  downloadPath : Option String
  server : ServerConfig
  rcon : RconConfig
  seed : SeedSettings
  steamCmdPath : Option String
  update : UpdateConfig
  launch : LaunchSettings

def decodeFramework : Decoder Framework :=
  Decoder.choice fun
    | "none" => some .none
    | "carbon" => some .carbon
    | "oxide" => some .oxide
    | _ => Option.none

def decodeSeedKind : Decoder SeedKind :=
  Decoder.choice fun
    | "fixed" => some .fixed
    | "list" => some .list
    | "random" => some .random
    | _ => none

/-- A setting that may be left out and has no default. -/
def Decoder.optional {α : Type} (decode : Decoder α) : Decoder (Option α) := fun v =>
  (decode v).map some

def decodeInstall : Decoder InstallSettings := fun v => do
  let g ← v.group? ["path", "identity"]
  return {
    path := ← g.get "path" Decoder.text ""
    identity := ← g.get "identity" Decoder.text "" }

def decodeDownloadPath : Decoder (Option String) := fun v => do
  let g ← v.group? ["download"]
  g.get "download" (fun v => (Decoder.text v).map some) none

def decodeServer : Decoder ServerConfig := fun v => do
  let g ← v.group? ["auto_restart", "shutdown_delay", "reason_path", "launch_binary"]
  let d := ServerConfig.default
  return {
    autoRestart := ← g.get "auto_restart" Decoder.bool d.autoRestart
    shutdownDelay := ← g.get "shutdown_delay" Decoder.duration d.shutdownDelay
    reasonPath := ← g.get "reason_path" (Decoder.optional Decoder.text) d.reasonPath
    launchBinary := ← g.get "launch_binary" (Decoder.optional Decoder.text) d.launchBinary }

def decodePassthrough : Decoder Passthrough := fun v => do
  let g ← v.group? ["ip", "port"]
  return { ip := ← g.get "ip" Decoder.bool false, port := ← g.get "port" Decoder.bool false }

def decodeRcon : Decoder RconConfig := fun v => do
  let g ← v.group? ["ip", "port", "password", "log", "chat_identifier", "passthrough"]
  let d := RconConfig.default
  return {
    ip := ← g.get "ip" Decoder.text d.ip
    port := ← g.get "port" (Decoder.unsigned 16) d.port
    password := ← g.get "password" Decoder.text d.password
    log := ← g.get "log" Decoder.bool d.log
    chatIdentifier := ← g.get "chat_identifier" Decoder.int32 d.chatIdentifier
    passthrough := ← g.get "passthrough" decodePassthrough d.passthrough }

def decodeSeed : Decoder SeedSettings := fun v => do
  let g ← v.group? ["strategy", "fixed", "list"]
  return {
    kind := ← g.get "strategy" decodeSeedKind .random
    fixed := ← g.get "fixed" (Decoder.optional Decoder.int32) none
    list := ← g.get "list" (Decoder.list Decoder.int32) [] }

def decodeSteamCmdPath : Decoder (Option String) := fun v => do
  let g ← v.group? ["path"]
  g.get "path" (Decoder.optional Decoder.text) none

def decodeServerUpdate : Decoder ServerUpdateConfig := fun v => do
  let g ← v.group? ["on_startup", "on_interval", "on_relaunch", "retry_delay"]
  let d := ServerUpdateConfig.default
  return {
    onStartup := ← g.get "on_startup" Decoder.bool d.onStartup
    onInterval := ← g.get "on_interval" Decoder.bool d.onInterval
    onRelaunch := ← g.get "on_relaunch" Decoder.bool d.onRelaunch
    retryDelay := ← g.get "retry_delay" Decoder.duration d.retryDelay }

def decodeFrameworkUpdate : Decoder FrameworkUpdateConfig := fun v => do
  let g ← v.group?
    ["type", "on_startup", "on_interval", "on_relaunch", "on_server_update", "retry_delay"]
  let d := FrameworkUpdateConfig.default
  return {
    kind := ← g.get "type" decodeFramework d.kind
    onStartup := ← g.get "on_startup" Decoder.bool d.onStartup
    onInterval := ← g.get "on_interval" Decoder.bool d.onInterval
    onRelaunch := ← g.get "on_relaunch" Decoder.bool d.onRelaunch
    onServerUpdate := ← g.get "on_server_update" Decoder.bool d.onServerUpdate
    retryDelay := ← g.get "retry_delay" Decoder.duration d.retryDelay }

def decodeUpdate : Decoder UpdateConfig := fun v => do
  let g ← v.group? ["interval", "max_install_attempts", "server", "framework"]
  let d := UpdateConfig.default
  return {
    interval := ← g.get "interval" Decoder.duration d.interval
    maxInstallAttempts := ← g.get "max_install_attempts" (Decoder.unsigned 32) d.maxInstallAttempts
    server := ← g.get "server" decodeServerUpdate d.server
    framework := ← g.get "framework" decodeFrameworkUpdate d.framework }

def decodeLaunch : Decoder LaunchSettings := fun v => do
  let g ← v.group? ["minus", "plus"]
  return {
    minus := ← g.get "minus" Decoder.entries []
    plus := ← g.get "plus" Decoder.entries [] }

/-- The names of the groups. -/
def groupNames : List String :=
  ["log_level", "install", "paths", "process", "rcon", "seed", "steamcmd", "update", "launch"]

def decodeDocument : Decoder Document := fun v => do
  let g ← v.group? groupNames
  return {
    logLevel := ← g.get "log_level" Decoder.text defaultLogLevel
    install := ← g.get "install" decodeInstall ⟨"", ""⟩
    downloadPath := ← g.get "paths" decodeDownloadPath none
    server := ← g.get "process" decodeServer .default
    rcon := ← g.get "rcon" decodeRcon .default
    seed := ← g.get "seed" decodeSeed ⟨.random, none, []⟩
    steamCmdPath := ← g.get "steamcmd" decodeSteamCmdPath none
    update := ← g.get "update" decodeUpdate .default
    launch := ← g.get "launch" decodeLaunch ⟨[], []⟩ }

/-- What a configuration text says, if it is a document whose settings have the right types. -/
def Document.read? (text : String) : Option Document := do
  decodeDocument (.table .header (← Toml.read? text))

end ServerWarden.Config
