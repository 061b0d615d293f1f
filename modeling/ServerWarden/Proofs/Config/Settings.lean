/-
# A document is what its settings say

A setting stands at a place: in groups inside groups, each of which is a table with its names or an
array in the order of its names (`Value.at?`).  It is read from the value that is written there, and
has its default where nothing is written (`Setting.read?`).

`Document.settings` lists the settings of a file, and a text that reads as a document says each of
them (`Document.reads`).  The groups are followed from the inside out: if the settings of a group are
what its decoder makes of it, and its default is made of theirs (`Settled`), then they are so inside
the group around it (`Settled.within`).
-/
import ServerWarden.Config.Document

namespace ServerWarden

namespace Toml

/-! ## 1. Places and settings -/

/-- One of the names of a group. -/
structure Place where
  names : List String
  name : String
  mem : name ∈ names

/-- A name, found among the names of its group. -/
def Place.named (name : String) (names : List String)
    (mem : name ∈ names := by decide +kernel) : Place :=
  ⟨names, name, mem⟩

/-- What a value holds at a place: what a table has under the name, and what an array has in the
name's turn. -/
def Value.at? (p : Place) : Value → Option Value
  | .table _ entries => entries.lookup p.name
  | .array items => items[p.names.idxOf p.name]?
  | .tables items => items.reverse[p.names.idxOf p.name]?
  | _ => none

/-- What a value holds at a place that further places lead to. -/
def Value.find? (v : Value) : List Place → Option Value
  | [] => some v
  | p :: path => (v.at? p).bind (·.find? path)

/-- A setting of what is read from a value: where it is written, how it is read there, what it is
where nothing is written, and which part of the result it is. -/
structure Setting (σ : Type) where
  {α : Type}
  path : List Place
  decode : Decoder α
  default : α
  part : σ → α

namespace Setting

variable {σ τ α : Type}

/-- The value of a setting that is written, or else its default. -/
def read? (e : Setting σ) (v : Value) : Option e.α :=
  match v.find? e.path with
  | some w => e.decode w
  | none => some e.default

/-- The result has the setting as it is read. -/
def Reads (e : Setting σ) (v : Value) (s : σ) : Prop := e.read? v = some (e.part s)

/-- The whole of what is read. -/
def whole (decode : Decoder α) (default : α) : Setting α := ⟨[], decode, default, id⟩

/-- A setting of what stands at a place. -/
def under (p : Place) (part : σ → τ) (e : Setting τ) : Setting σ :=
  ⟨p :: e.path, e.decode, e.default, e.part ∘ part⟩

/-- The setting that stands at a place. -/
def plain (p : Place) (decode : Decoder α) (default : α) (part : σ → α) : Setting σ :=
  (whole decode default).under p part

end Setting

/-- Whatever a decoder makes of a value has the given settings, and the default has their
defaults. -/
structure Settled {σ : Type} (decode : Decoder σ) (default : σ) (settings : List (Setting σ)) :
    Prop where
  reads : ∀ {v s}, decode v = some s → ∀ e ∈ settings, e.Reads v s
  default : ∀ e ∈ settings, e.part default = e.default

section

variable {σ τ α : Type} {p : Place} {v : Value} {g : Group} {part : σ → τ} {s : σ} {t : τ}
  {decode : Decoder τ} {default : τ} {settings : List (Setting τ)}

theorem Settled.whole (decode : Decoder τ) (default : τ) :
    Settled decode default [.whole decode default] where
  reads h := List.forall_mem_singleton.mpr h
  default := List.forall_mem_singleton.mpr rfl

/-- In an array, a name finds what is written in its turn. -/
theorem lookup_zip {names : List String} {name : String} (h : name ∈ names) (items : List Value) :
    (names.zip items).lookup name = items[names.idxOf name]? := by
  induction names generalizing items with
  | nil => exact nomatch h
  | cons n names ih =>
    cases items with
    | nil => simp
    | cons w items =>
      rw [List.zip_cons_cons, List.lookup_cons]
      by_cases hn : n = name
      · subst hn
        simp
      · have hmem : name ∈ names := (List.mem_cons.mp h).resolve_left (Ne.symm hn)
        have hne : (name == n) = false := beq_eq_false_iff_ne.mpr (Ne.symm hn)
        have hidx : (n :: names).idxOf name = names.idxOf name + 1 := by
          rw [List.idxOf_cons, beq_eq_false_iff_ne.mpr hn, cond_false]
        rw [hne, hidx, List.getElem?_cons_succ]
        exact ih hmem items

/-- The settings of a group by name are what stands at the places of its names. -/
theorem Value.lookup_of_group? (h : v.group? p.names = some g) : g.lookup p.name = v.at? p := by
  cases v with
  | table origin entries =>
    simp only [Value.group?] at h
    split at h
    · cases h
      rfl
    · exact nomatch h
  | array items =>
    cases h
    exact lookup_zip p.mem items
  | tables items =>
    cases h
    exact lookup_zip p.mem items.reverse
  | datetime text =>
    cases h
    rfl
  | _ => exact nomatch h

example : (Value.array [.boolean false, .boolean true]).at? (.named "port" ["ip", "port"]) =
    some (.boolean true) := rfl

/-- **Settings inside a group.**  What is settled of a group is settled of it as a part of the group
around it. -/
theorem Settled.within (hs : Settled decode default settings) (hg : v.group? p.names = some g)
    (ht : g.get p.name decode default = some t) (hpart : part s = t) :
    ∀ e ∈ settings.map (Setting.under p part), e.Reads v s := by
  refine List.forall_mem_map.mpr ?_
  intro e he
  rw [Group.get, Value.lookup_of_group? hg] at ht
  unfold Setting.Reads Setting.read?
  simp only [Setting.under, Value.find?, Function.comp_apply, hpart]
  cases hw : v.at? p with
  | none =>
    rw [hw] at ht
    cases ht
    exact congrArg some (hs.default e he).symm
  | some w =>
    rw [hw] at ht
    exact hs.reads ht e he

/-- A setting inside a group. -/
theorem Setting.Reads.plain (hg : v.group? p.names = some g)
    (ht : g.get p.name decode default = some t) (hpart : part s = t) :
    (Setting.plain p decode default part).Reads v s :=
  (Settled.whole decode default).within hg ht hpart _ (by simp [Setting.plain])

end

end Toml

namespace Config

open Toml (Place Decoder Setting Settled Value)

/-! ## 2. The settings of each group

The names of a group are in the order that an array gives its settings. -/

def installNames : List String := ["path", "identity"]

def installSettings : List (Setting InstallSettings) := [
  .plain (.named "path" installNames) Decoder.text "" (·.path),
  .plain (.named "identity" installNames) Decoder.text "" (·.identity)]

theorem decodeInstall_settled : Settled decodeInstall ⟨"", ""⟩ installSettings where
  reads h := by
    simp only [decodeInstall, Option.bind_eq_bind, Option.bind_eq_some_iff] at h
    obtain ⟨g, hg, path, hpath, identity, hidentity, h⟩ := h
    cases h
    simp only [installSettings, List.forall_mem_cons]
    exact ⟨.plain hg hpath rfl, .plain hg hidentity rfl, nofun⟩
  default := by
    simp only [installSettings, List.forall_mem_cons]
    exact ⟨rfl, rfl, nofun⟩

def pathNames : List String := ["download"]

def downloadSettings : List (Setting (Option String)) := [
  .plain (.named "download" pathNames) (Decoder.optional Decoder.text) none id]

theorem decodeDownloadPath_settled : Settled decodeDownloadPath none downloadSettings where
  reads h := by
    simp only [decodeDownloadPath, Option.bind_eq_bind, Option.bind_eq_some_iff] at h
    obtain ⟨g, hg, hpath⟩ := h
    exact List.forall_mem_singleton.mpr (.plain hg hpath rfl)
  default := List.forall_mem_singleton.mpr rfl

def processNames : List String := ["auto_restart", "shutdown_delay", "reason_path", "launch_binary"]

def processSettings : List (Setting ServerConfig) := [
  .plain (.named "auto_restart" processNames) Decoder.bool false (·.autoRestart),
  .plain (.named "shutdown_delay" processNames) Decoder.duration .zero (·.shutdownDelay),
  .plain (.named "reason_path" processNames) (Decoder.optional Decoder.text) none (·.reasonPath),
  .plain (.named "launch_binary" processNames) (Decoder.optional Decoder.text) none
    (·.launchBinary)]

theorem decodeServer_settled : Settled decodeServer .default processSettings where
  reads h := by
    simp only [decodeServer, Option.bind_eq_bind, Option.bind_eq_some_iff] at h
    obtain ⟨g, hg, restart, hrestart, delay, hdelay, reason, hreason, binary, hbinary, h⟩ := h
    cases h
    simp only [processSettings, List.forall_mem_cons]
    exact ⟨.plain hg hrestart rfl, .plain hg hdelay rfl, .plain hg hreason rfl,
      .plain hg hbinary rfl, nofun⟩
  default := by
    simp only [processSettings, List.forall_mem_cons]
    exact ⟨rfl, rfl, rfl, rfl, nofun⟩

def passthroughNames : List String := ["ip", "port"]

def passthroughSettings : List (Setting Passthrough) := [
  .plain (.named "ip" passthroughNames) Decoder.bool false (·.ip),
  .plain (.named "port" passthroughNames) Decoder.bool false (·.port)]

theorem decodePassthrough_settled :
    Settled decodePassthrough ⟨false, false⟩ passthroughSettings where
  reads h := by
    simp only [decodePassthrough, Option.bind_eq_bind, Option.bind_eq_some_iff] at h
    obtain ⟨g, hg, ip, hip, port, hport, h⟩ := h
    cases h
    simp only [passthroughSettings, List.forall_mem_cons]
    exact ⟨.plain hg hip rfl, .plain hg hport rfl, nofun⟩
  default := by
    simp only [passthroughSettings, List.forall_mem_cons]
    exact ⟨rfl, rfl, nofun⟩

def rconNames : List String := ["ip", "port", "password", "log", "chat_identifier", "passthrough"]

def rconSettings : List (Setting RconConfig) := [
  .plain (.named "ip" rconNames) Decoder.text "127.0.0.1" (·.ip),
  .plain (.named "port" rconNames) (Decoder.unsigned 16) 28016 (·.port),
  .plain (.named "password" rconNames) Decoder.text "" (·.password),
  .plain (.named "log" rconNames) Decoder.bool false (·.log),
  .plain (.named "chat_identifier" rconNames) Decoder.int32 (-1) (·.chatIdentifier)] ++
  passthroughSettings.map (.under (.named "passthrough" rconNames) (·.passthrough))

theorem decodeRcon_settled : Settled decodeRcon .default rconSettings where
  reads h := by
    simp only [decodeRcon, Option.bind_eq_bind, Option.bind_eq_some_iff] at h
    obtain ⟨g, hg, ip, hip, port, hport, password, hpassword, log, hlog, chat, hchat, passthrough,
      hpassthrough, h⟩ := h
    cases h
    simp only [rconSettings, List.forall_mem_append, List.forall_mem_cons]
    exact ⟨⟨.plain hg hip rfl, .plain hg hport rfl, .plain hg hpassword rfl, .plain hg hlog rfl,
      .plain hg hchat rfl, nofun⟩, decodePassthrough_settled.within hg hpassthrough rfl⟩
  default := by
    simp only [rconSettings, List.forall_mem_append, List.forall_mem_cons,
      List.forall_mem_map]
    exact ⟨⟨rfl, rfl, rfl, rfl, rfl, nofun⟩, decodePassthrough_settled.default⟩

def seedNames : List String := ["strategy", "fixed", "list"]

def seedSettings : List (Setting SeedSettings) := [
  .plain (.named "strategy" seedNames) decodeSeedKind .random (·.kind),
  .plain (.named "fixed" seedNames) (Decoder.optional Decoder.int32) none (·.fixed),
  .plain (.named "list" seedNames) (Decoder.list Decoder.int32) [] (·.list)]

theorem decodeSeed_settled : Settled decodeSeed ⟨.random, none, []⟩ seedSettings where
  reads h := by
    simp only [decodeSeed, Option.bind_eq_bind, Option.bind_eq_some_iff] at h
    obtain ⟨g, hg, kind, hkind, fixed, hfixed, list, hlist, h⟩ := h
    cases h
    simp only [seedSettings, List.forall_mem_cons]
    exact ⟨.plain hg hkind rfl, .plain hg hfixed rfl, .plain hg hlist rfl, nofun⟩
  default := by
    simp only [seedSettings, List.forall_mem_cons]
    exact ⟨rfl, rfl, rfl, nofun⟩

def steamCmdNames : List String := ["path"]

def steamCmdSettings : List (Setting (Option String)) := [
  .plain (.named "path" steamCmdNames) (Decoder.optional Decoder.text) none id]

theorem decodeSteamCmdPath_settled : Settled decodeSteamCmdPath none steamCmdSettings where
  reads h := by
    simp only [decodeSteamCmdPath, Option.bind_eq_bind, Option.bind_eq_some_iff] at h
    obtain ⟨g, hg, hpath⟩ := h
    exact List.forall_mem_singleton.mpr (.plain hg hpath rfl)
  default := List.forall_mem_singleton.mpr rfl

def serverUpdateNames : List String := ["on_startup", "on_interval", "on_relaunch", "retry_delay"]

def serverUpdateSettings : List (Setting ServerUpdateConfig) := [
  .plain (.named "on_startup" serverUpdateNames) Decoder.bool false (·.onStartup),
  .plain (.named "on_interval" serverUpdateNames) Decoder.bool false (·.onInterval),
  .plain (.named "on_relaunch" serverUpdateNames) Decoder.bool false (·.onRelaunch),
  .plain (.named "retry_delay" serverUpdateNames) Decoder.duration (.ofSecs 10) (·.retryDelay)]

theorem decodeServerUpdate_settled :
    Settled decodeServerUpdate .default serverUpdateSettings where
  reads h := by
    simp only [decodeServerUpdate, Option.bind_eq_bind, Option.bind_eq_some_iff] at h
    obtain ⟨g, hg, startup, hstartup, interval, hinterval, relaunch, hrelaunch, delay, hdelay,
      h⟩ := h
    cases h
    simp only [serverUpdateSettings, List.forall_mem_cons]
    exact ⟨.plain hg hstartup rfl, .plain hg hinterval rfl, .plain hg hrelaunch rfl,
      .plain hg hdelay rfl, nofun⟩
  default := by
    simp only [serverUpdateSettings, List.forall_mem_cons]
    exact ⟨rfl, rfl, rfl, rfl, nofun⟩

def frameworkUpdateNames : List String :=
  ["type", "on_startup", "on_interval", "on_relaunch", "on_server_update", "retry_delay"]

def frameworkUpdateSettings : List (Setting FrameworkUpdateConfig) := [
  .plain (.named "type" frameworkUpdateNames) decodeFramework .none (·.kind),
  .plain (.named "on_startup" frameworkUpdateNames) Decoder.bool false (·.onStartup),
  .plain (.named "on_interval" frameworkUpdateNames) Decoder.bool false (·.onInterval),
  .plain (.named "on_relaunch" frameworkUpdateNames) Decoder.bool false (·.onRelaunch),
  .plain (.named "on_server_update" frameworkUpdateNames) Decoder.bool false (·.onServerUpdate),
  .plain (.named "retry_delay" frameworkUpdateNames) Decoder.duration (.ofSecs 10) (·.retryDelay)]

theorem decodeFrameworkUpdate_settled :
    Settled decodeFrameworkUpdate .default frameworkUpdateSettings where
  reads h := by
    simp only [decodeFrameworkUpdate, Option.bind_eq_bind, Option.bind_eq_some_iff] at h
    obtain ⟨g, hg, kind, hkind, startup, hstartup, interval, hinterval, relaunch, hrelaunch,
      after, hafter, delay, hdelay, h⟩ := h
    cases h
    simp only [frameworkUpdateSettings, List.forall_mem_cons]
    exact ⟨.plain hg hkind rfl, .plain hg hstartup rfl, .plain hg hinterval rfl,
      .plain hg hrelaunch rfl, .plain hg hafter rfl, .plain hg hdelay rfl, nofun⟩
  default := by
    simp only [frameworkUpdateSettings, List.forall_mem_cons]
    exact ⟨rfl, rfl, rfl, rfl, rfl, rfl, nofun⟩

def updateNames : List String := ["interval", "max_install_attempts", "server", "framework"]

def updateSettings : List (Setting UpdateConfig) := [
  .plain (.named "interval" updateNames) Decoder.duration .zero (·.interval),
  .plain (.named "max_install_attempts" updateNames) (Decoder.unsigned 32) 0
    (·.maxInstallAttempts)] ++
  (serverUpdateSettings.map (.under (.named "server" updateNames) (·.server)) ++
  frameworkUpdateSettings.map (.under (.named "framework" updateNames) (·.framework)))

theorem decodeUpdate_settled : Settled decodeUpdate .default updateSettings where
  reads h := by
    simp only [decodeUpdate, Option.bind_eq_bind, Option.bind_eq_some_iff] at h
    obtain ⟨g, hg, interval, hinterval, attempts, hattempts, server, hserver, framework,
      hframework, h⟩ := h
    cases h
    simp only [updateSettings, List.forall_mem_append, List.forall_mem_cons]
    exact ⟨⟨.plain hg hinterval rfl, .plain hg hattempts rfl, nofun⟩,
      decodeServerUpdate_settled.within hg hserver rfl,
      decodeFrameworkUpdate_settled.within hg hframework rfl⟩
  default := by
    simp only [updateSettings, List.forall_mem_append, List.forall_mem_cons,
      List.forall_mem_map]
    exact ⟨⟨rfl, rfl, nofun⟩, decodeServerUpdate_settled.default,
      decodeFrameworkUpdate_settled.default⟩

def launchNames : List String := ["minus", "plus"]

def launchSettings : List (Setting LaunchSettings) := [
  .plain (.named "minus" launchNames) Decoder.entries [] (·.minus),
  .plain (.named "plus" launchNames) Decoder.entries [] (·.plus)]

theorem decodeLaunch_settled : Settled decodeLaunch ⟨[], []⟩ launchSettings where
  reads h := by
    simp only [decodeLaunch, Option.bind_eq_bind, Option.bind_eq_some_iff] at h
    obtain ⟨g, hg, minus, hminus, plus, hplus, h⟩ := h
    cases h
    simp only [launchSettings, List.forall_mem_cons]
    exact ⟨.plain hg hminus rfl, .plain hg hplus rfl, nofun⟩
  default := by
    simp only [launchSettings, List.forall_mem_cons]
    exact ⟨rfl, rfl, nofun⟩

/-! ## 3. The settings of a file -/

/-- The settings of a file, with what each of them is where nothing is written. -/
def Document.settings : List (Setting Document) :=
  .plain (.named "log_level" groupNames) Decoder.text "info" (·.logLevel) ::
  (installSettings.map (.under (.named "install" groupNames) (·.install)) ++
  (downloadSettings.map (.under (.named "paths" groupNames) (·.downloadPath)) ++
  (processSettings.map (.under (.named "process" groupNames) (·.server)) ++
  (rconSettings.map (.under (.named "rcon" groupNames) (·.rcon)) ++
  (seedSettings.map (.under (.named "seed" groupNames) (·.seed)) ++
  (steamCmdSettings.map (.under (.named "steamcmd" groupNames) (·.steamCmdPath)) ++
  (updateSettings.map (.under (.named "update" groupNames) (·.update)) ++
  launchSettings.map (.under (.named "launch" groupNames) (·.launch)))))))))

/-- What is read from a document's table has every setting as it is written there. -/
theorem decodeDocument_reads {v : Value} {d : Document} (h : decodeDocument v = some d) :
    ∀ e ∈ Document.settings, e.Reads v d := by
  simp only [decodeDocument, Option.bind_eq_bind, Option.bind_eq_some_iff] at h
  obtain ⟨g, hg, level, hlevel, install, hinstall, download, hdownload, process, hprocess,
    rcon, hrcon, seed, hseed, tool, htool, update, hupdate, launch, hlaunch, h⟩ := h
  cases h
  simp only [Document.settings, List.forall_mem_append, List.forall_mem_cons]
  exact ⟨.plain hg hlevel rfl, decodeInstall_settled.within hg hinstall rfl,
    decodeDownloadPath_settled.within hg hdownload rfl,
    decodeServer_settled.within hg hprocess rfl, decodeRcon_settled.within hg hrcon rfl,
    decodeSeed_settled.within hg hseed rfl, decodeSteamCmdPath_settled.within hg htool rfl,
    decodeUpdate_settled.within hg hupdate rfl, decodeLaunch_settled.within hg hlaunch rfl⟩

/-- **A text that reads as a document says every setting of it**, or leaves it at its default. -/
theorem Document.reads {text : String} {d : Document} (h : Document.read? text = some d) :
    ∃ entries, Toml.read? text = some entries ∧
      ∀ e ∈ Document.settings, e.Reads (.table .header entries) d := by
  obtain ⟨entries, hread, hdecode⟩ := Option.bind_eq_some_iff.mp h
  exact ⟨entries, hread, decodeDocument_reads hdecode⟩

end Config
end ServerWarden
