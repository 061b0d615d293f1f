/-
# What a configuration that was read satisfies

A configuration that was read is described by a document (`Config.described_of_ofText`), and so is
what is said on the way.  Its update policy went through `UpdateConfig.normalize`
(`Config.update_of_ofText`), so what holds of every normal policy holds of each of them.  Without a
framework all its checks are off (`UpdateConfig.normalize_frameworkIdle`): they are cleared first,
and what comes after never turns one on.
-/
import ServerWarden.Config.Load

namespace ServerWarden

namespace UpdateConfig

/-- Without a framework, nothing is checked for one. -/
def FrameworkIdle (u : UpdateConfig) : Prop :=
  u.framework.kind = .none → u.framework.onStartup = false ∧ u.framework.onInterval = false ∧
    u.framework.onRelaunch = false ∧ u.framework.onServerUpdate = false

theorem clearFramework_frameworkIdle (u : UpdateConfig) : u.clearFramework.FrameworkIdle := by
  unfold clearFramework FrameworkIdle
  split
  · exact fun _ => ⟨rfl, rfl, rfl, rfl⟩
  · next h => exact fun hk => absurd hk h

/-! The lines that are said on the way apart, each step is one update. -/

theorem dropInterval_value (u : UpdateConfig) :
    u.dropInterval.value = if !u.interval.isZero && !u.server.onInterval && !u.framework.onInterval
      then { u with interval := .zero } else u := by
  unfold dropInterval
  split <;> rfl

theorem dropChecks_value (u : UpdateConfig) :
    u.dropChecks.value = if u.interval.isZero then
      { u with
        server := { u.server with onInterval := false }
        framework := { u.framework with onInterval := false } } else u := by
  unfold dropChecks
  split
  · cases u.server.onInterval <;> cases u.framework.onInterval <;> rfl
  · rfl

theorem dropInterval_log (u : UpdateConfig) : u.dropInterval.log =
    if !u.interval.isZero && !u.server.onInterval && !u.framework.onInterval then
      [⟨.warn, .config,
        s!"Ignoring update.interval = {u.interval.text} because update.server and " ++
          "update.framework on_interval are both false"⟩]
    else [] := by
  unfold dropInterval
  split <;> rfl

theorem dropChecks_log (u : UpdateConfig) : u.dropChecks.log =
    if u.interval.isZero then
      (if u.server.onInterval then [⟨.warn, .config,
        "Ignoring update.server.on_interval = true because update.interval is 0"⟩] else []) ++
      (if u.framework.onInterval then [⟨.warn, .config,
        "Ignoring update.framework.on_interval = true because update.interval is 0"⟩] else [])
    else [] := by
  unfold dropChecks
  split
  · cases u.server.onInterval <;> cases u.framework.onInterval <;> rfl
  · rfl

theorem FrameworkIdle.dropInterval {u : UpdateConfig} (h : u.FrameworkIdle) :
    u.dropInterval.value.FrameworkIdle := by
  rw [dropInterval_value]
  split <;> exact h

theorem FrameworkIdle.dropChecks {u : UpdateConfig} (h : u.FrameworkIdle) :
    u.dropChecks.value.FrameworkIdle := by
  rw [dropChecks_value]
  split
  · exact fun hk => ⟨(h hk).1, rfl, (h hk).2.2.1, (h hk).2.2.2⟩
  · exact h

/-- **A normal policy without a framework has no check for one.** -/
theorem normalize_frameworkIdle (u : UpdateConfig) : u.normalize.value.FrameworkIdle :=
  (clearFramework_frameworkIdle u).dropInterval.dropChecks

end UpdateConfig

namespace Config

/-- What is computed of an accepted configuration shows that there is one. -/
theorem exists_ok {α : Type} {result : Except Error Config} {f : Config → α} {a : α}
    (h : result.toOption.map f = some a) : ∃ c, result = .ok c ∧ f c = a := by
  cases result with
  | error e => exact nomatch h
  | ok c => exact ⟨c, rfl, Option.some.inj h⟩

/-- The configuration that a document describes, on a host and with its seed strategy resolved. -/
def described (host : Host) (d : Document) (seed : SeedStrategy) : Config where
  logLevel := d.logLevel
  installPath := d.install.path
  identity := d.install.identity
  downloadPath := d.downloadPath.getD (Path.join host.temporaryDirectory downloadDirectory)
  server := d.server
  rcon := d.rcon
  seed := seed
  steamCmdPath := (resolveSteamCmd host d.steamCmdPath).value
  update := d.update.normalize.value
  launchMinus := (flattenParams "-" d.launch.minus []).value
  launchPlus := (flattenParams "+" d.launch.plus []).value

/-- **What a configuration that was read comes from**: a document, with every part taken over,
looked up, flattened or normalised, and what was said on the way. -/
theorem described_of_ofText {host : Host} {text : String} {c : Config}
    (h : (ofText host text).value = .ok c) :
    ∃ d seed, Document.read? text = some d ∧ d.seed.resolve = .ok seed ∧
      c = described host d seed ∧ c.fault? = none ∧
      (ofText host text).log = (resolveSteamCmd host d.steamCmdPath).log ++
        ((flattenParams "-" d.launch.minus []).log ++
          ((flattenParams "+" d.launch.plus []).log ++ d.update.normalize.log)) := by
  unfold ofText at h ⊢
  split at h
  · exact nomatch h
  · next d hd =>
    unfold ofDocument at h ⊢
    split at h
    · exact nomatch h
    · next seed hseed =>
      simp only [Logged.value_bind, Logged.log_bind] at h ⊢
      split at h
      · exact nomatch h
      · next hfault =>
        cases h
        refine ⟨d, seed, hd, hseed, rfl, hfault, ?_⟩
        simp

/-- **The policy of an accepted configuration** is what normalisation made of the document's. -/
theorem update_of_ofText {host : Host} {text : String} {c : Config}
    (h : (ofText host text).value = .ok c) :
    ∃ d, Document.read? text = some d ∧ c.update = d.update.normalize.value := by
  obtain ⟨d, seed, hd, -, rfl, -⟩ := described_of_ofText h
  exact ⟨d, hd, rfl⟩

end Config
end ServerWarden
