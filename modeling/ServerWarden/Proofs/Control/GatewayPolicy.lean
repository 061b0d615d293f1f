/-
# What the gateway is asked for, and when

A check at the gateway costs little, and an install takes the server down.  So a session is bound by
its configuration in both: it checks what the configuration wants checked at the occasion, and
installs what a check of the same pass has found out of date.  `Clockwork.gateway_obeys_policy` is
that law, from the text of the configuration to each single request:

* the settings have each flag of the configuration at its own occasion (`Occasion.policy_ofConfig`);
* the session keeps to the settings (`Supervisor.run_recorded`);
* normalisation leaves no flag of a framework that is not there, so that no framework is ever asked
  for (`Clockwork.Unframed`);
* a timer without an interval never asks for a pass (`Clockwork.Unscheduled`).
-/
import ServerWarden.Proofs.Config.Normal
import ServerWarden.Proofs.Control.Clockwork

namespace ServerWarden

open Surroundings

/-! ## 1. The flags of a configuration -/

/-- Whether a configuration wants an artifact checked at an occasion. -/
def Occasion.wants (u : UpdateConfig) : Occasion → ArtifactKind → Bool
  | .startup, .server => u.server.onStartup
  | .wake, .server | .update, .server => u.server.onInterval
  | .relaunch, .server => u.server.onRelaunch
  | .startup, .framework => u.framework.onStartup
  | .wake, .framework | .update, .framework => u.framework.onInterval
  | .relaunch, .framework => u.framework.onRelaunch

/-- **Each flag has its own occasion.** -/
theorem Occasion.policy_ofConfig (c : Config) (o : Occasion) :
    o.policy (.ofConfig c) = ⟨o.wants c.update .server, o.wants c.update .framework⟩ := by
  cases o <;> rfl

theorem UpdateConfig.FrameworkIdle.wants {u : UpdateConfig} (h : u.FrameworkIdle)
    (hk : u.framework.kind = .none) (o : Occasion) : o.wants u .framework = false := by
  obtain ⟨hs, hi, hr, -⟩ := h hk
  cases o <;> assumption

/-! ## 2. Sessions without a framework -/

namespace Diary

/-- A call that is in the diary was there before, or was just made. -/
theorem mem_calls_add {β : Type} {r : Request β} {b : β} {d : Diary} {call : GatewayCall}
    (h : call ∈ (d.add ⟨r, b⟩).calls) :
    call ∈ d.calls ∨ r.checks? = some call.kind ∨ r.installs? = some call.kind := by
  have ha := d.added r b
  generalize d.add ⟨r, b⟩ = u at ha h
  cases ha with
  | woken signals => exact nomatch h
  | crashed p => exact nomatch h
  | called b c hc =>
    have hpushed : call ∈ d.calls ++ [c] := by cases c <;> exact h
    rcases List.mem_append.mp hpushed with hm | hm
    · exact Or.inl hm
    · exact Or.inr (List.mem_singleton.mp hm ▸ hc)
  | _ => exact Or.inl h

theorem mem_of_lastCall? {k : ArtifactKind} {calls : List GatewayCall} {c : GatewayCall}
    (h : lastCall? k calls = some c) : c ∈ calls ∧ c.kind = k := by
  have hm := List.mem_of_getLast? h
  simpa using List.mem_filter.mp hm

end Diary

/-- No setting wants a framework checked. -/
structure SupervisorSettings.Frameless (s : SupervisorSettings) : Prop where
  policy : ∀ o : Occasion, (o.policy s).framework = false
  together : s.frameworkOnServerUpdate = false

theorem SupervisorSettings.frameless_ofConfig {c : Config} (h : c.update.FrameworkIdle)
    (hk : c.update.framework.kind = .none) : (SupervisorSettings.ofConfig c).Frameless where
  policy o := by
    rw [Occasion.policy_ofConfig]
    exact h.wants hk o
  together := by simp [SupervisorSettings.ofConfig, hk]

namespace Clockwork

/-- Only calls for the server were made. -/
def Unframed (history : List Exchange) : Prop :=
  ∀ call ∈ (diary history).calls, call.kind = .server

/-- Without a framework, none is asked for next. -/
theorem Unframed.refuses {s : SupervisorSettings} {history : List Exchange} {β : Type}
    {r : Request β} (hs : s.Frameless) (h : Unframed history)
    (hr : (diary history).Admits s r) :
    r.checks? ≠ some .framework ∧ r.installs? ≠ some .framework := by
  have never (c : GatewayCall) : lastCall? .framework (diary history).calls ≠ some c := by
    intro hl
    obtain ⟨hm, hk⟩ := Diary.mem_of_lastCall? hl
    exact nomatch hk.symm.trans (h c hm)
  cases r
  case checkFramework =>
    obtain ⟨-, -, ⟨-, hf | hf⟩ | hl⟩ := hr
    · exact nomatch hf.symm.trans (hs.policy _)
    · exact nomatch hf.1.symm.trans hs.together
    · exact absurd hl (never _)
  case updateFramework quiet => exact absurd hr.2.2.2 (never _)
  all_goals exact ⟨nofun, nofun⟩

theorem Unframed.answered {s : SupervisorSettings} {history : List Exchange} {β : Type}
    {r : Request β} (b : β) (hs : s.Frameless) (h : Unframed history)
    (hr : (diary history).Admits s r) : Unframed (history ++ [⟨r, b⟩]) := by
  intro call hm
  rw [diary_append] at hm
  obtain ⟨hcheck, hinstall⟩ := h.refuses hs hr
  rcases Diary.mem_calls_add hm with hold | hc | hi
  · exact h call hold
  · cases hk : call.kind with
    | server => rfl
    | framework => exact absurd (hk ▸ hc) hcheck
  · cases hk : call.kind with
    | server => rfl
    | framework => exact absurd (hk ▸ hi) hinstall

theorem unframed (s : Supervisor) (now : Instant) (hs : s.settings.Frameless)
    {q : Program ExitCode} {t : Clockwork} {history : List Exchange}
    (h : clocked.recorded.Reaches s.run (initial now, []) q (t, history)) : Unframed history := by
  refine (s.run_recorded clocked (initial now)).keeps (I := fun t => Unframed t.2) ?_ ?_ h nofun
  · intro β r t b t' hr ha ht
    rw [ha.2]
    exact ht.answered b hs hr
  · intro t t' hm ht
    rw [hm.2]
    exact ht

/-! ## 3. Every run -/

/-- **What the gateway may be asked for** by a session with an update policy, after a history. -/
structure Obeys (u : UpdateConfig) (history : List Exchange) {β : Type} (r : Request β) : Prop where
  /-- The last call of the pass for what is installed was a check that found something newer. -/
  install : ∀ k, r.installs? = some k → lastCall? k (diary history).calls = some (.check k true)
  /-- The server is checked first in a pass that wants it, or after it was installed. -/
  server : r.checks? = some .server →
    (diary history).calls = [] ∧ (diary history).occasion.wants u .server = true ∨
    lastCall? .server (diary history).calls = some (.install .server)
  /-- The framework is checked next, if the pass wants it, or if a newer server was found and the
  two go together; or after it was installed. -/
  framework : r.checks? = some .framework →
    ((diary history).calls = [] ∨ ∃ newer, (diary history).calls = [.check .server newer]) ∧
      ((diary history).occasion.wants u .framework = true ∨
        u.framework.onServerUpdate = true ∧ (diary history).calls = [.check .server true]) ∨
    lastCall? .framework (diary history).calls = some (.install .framework)
  /-- Passes at intervals are signalled. -/
  prompted : r.AsksGateway → (diary history).occasion.atInterval = true →
    (diary history).signals.updateCheck = true
  /-- Without a framework, there are no calls for one. -/
  unframed : u.framework.kind = .none →
    r.checks? ≠ some .framework ∧ r.installs? ≠ some .framework
  /-- Without an interval, there are no passes at intervals. -/
  unscheduled : u.interval.isZero = true →
    (∀ signals ∈ taken history, signals.updateCheck = false) ∧
    (r.AsksGateway → (diary history).occasion.atInterval = false)

/-- **Gateway calls obey the policy** of every configuration that is accepted, in every run of a
session with its settings, whatever is answered and however the timer and the session interleave. -/
theorem gateway_obeys_policy {host : Host} {text : String} {c : Config} (k : Keeper)
    (now : Instant) {β : Type} {r : Request β} {next : β → Program ExitCode} {t : Clockwork}
    {history : List Exchange} (hc : (Config.ofText host text).value = .ok c)
    (h : clocked.recorded.Reaches (⟨.ofConfig c, k⟩ : Supervisor).run (initial now, [])
      (.ask r next) (t, history)) : Obeys c.update history r := by
  let s : Supervisor := ⟨.ofConfig c, k⟩
  have hrun := s.run_recorded clocked (initial now)
  have hr : (diary history).Admits (.ofConfig c) r := (hrun h).2
  have hidle : c.update.FrameworkIdle := by
    obtain ⟨d, -, hd⟩ := Config.update_of_ofText hc
    exact hd ▸ d.update.normalize_frameworkIdle
  have hprompted : r.AsksGateway → (diary history).Prompted := by
    intro ha
    cases r
    case checkServer => exact hr.2.1
    case checkFramework => exact hr.2.1
    case updateServer => exact hr.2.2.1
    case updateFramework quiet => exact hr.2.2.1
    all_goals exact ha.elim
  constructor
  · intro kind hk
    cases r
    case updateServer =>
      cases hk
      exact hr.2.2.2
    case updateFramework quiet =>
      cases hk
      exact hr.2.2.2
    all_goals exact nomatch hk
  · intro hk
    cases r
    case checkServer =>
      refine hr.2.2.imp_left fun hbegin => ⟨hbegin.1, ?_⟩
      have hwanted := hbegin.2
      rwa [Occasion.policy_ofConfig] at hwanted
    all_goals exact nomatch hk
  · intro hk
    cases r
    case checkFramework =>
      refine hr.2.2.imp_left fun hbegin => ⟨hbegin.1, hbegin.2.imp (fun hwanted => ?_) ?_⟩
      · rwa [Occasion.policy_ofConfig] at hwanted
      · exact fun htogether => ⟨(Bool.and_eq_true_iff.mp htogether.1).2, htogether.2⟩
    all_goals exact nomatch hk
  · exact hprompted
  · intro hnone
    have hless := SupervisorSettings.frameless_ofConfig hidle hnone
    exact (unframed s now hless h).refuses hless hr
  · intro hzero
    have hun : Unscheduled (t, history) := unscheduled s now hzero h
    refine ⟨hun.taken, fun ha => Bool.eq_false_iff.mpr fun hat => ?_⟩
    exact absurd (hun.last.symm.trans (hprompted ha hat)) (by decide)

/-! ## 4. A pass after a minute -/

/-- A configuration by which the server is checked every minute. -/
def minutely : String :=
  "[install]\npath = \"/srv\"\nidentity = \"main\"\n[rcon]\npassword = \"secret\"\n" ++
    "[update]\ninterval = \"60s\"\n[update.server]\non_interval = true\n"

/-- A session by that configuration. -/
def checking : Supervisor where
  settings := {
    autoRestart := false
    healthInterval := .ofSecs 60
    updateInterval := .ofSecs 60
    onStartup := ⟨false, false⟩
    onInterval := ⟨true, false⟩
    onRelaunch := ⟨false, false⟩
    frameworkOnServerUpdate := false
    frameworkName := "none"
    serverRetry := ⟨.ofSecs 10, 0⟩
    frameworkRetry := ⟨.ofSecs 10, 0⟩
    reasonPath := none }
  keeper := Watched.installing.keeper

theorem minutely_accepted : ∃ c, (Config.ofText ⟨⟨[], []⟩, none, "/tmp"⟩ minutely).value = .ok c ∧
    .ofConfig c = checking.settings :=
  Config.exists_ok (by decide +kernel)

/-- What is answered while there is always something newer. -/
def outdated : Player clocked where
  answer
    | _, .setPhase p, t => some ((), { t with coordinator := t.coordinator.setPhase p })
    | _, .waitForSignals, t => t.coordinator.takeSignals?.map fun (signals, c) =>
      (signals, { t with coordinator := c })
    | _, .startTimer health update, t =>
      some ((), { t with timer := some (.of health update, .start (.of health update) t.now) })
    | _, .say .., t => some ((), t)
    | _, .spawn _, t => some (.ok ⟨0⟩, t)
    | _, .isRunning _, t => some (t.coordinator.phase = .run, t)
    | _, .processId _, t => some (0, t)
    | _, .release _, t => some ((), t)
    | _, .checkServer, t => some (true, t)
    | _, _, _ => none
  possible := by
    intro β r t t' b h
    cases r
    case waitForSignals =>
      obtain ⟨⟨signals, c⟩, hc, he⟩ := Option.map_eq_some_iff.mp h
      cases he
      exact ⟨c, hc, rfl⟩
    case startTimer health update =>
      cases h
      exact ⟨t.now, rfl⟩
    all_goals cases h <;> rfl

/-- The session at its first wait. -/
def watching : Program ExitCode × (Clockwork × List Exchange) :=
  outdated.recorded.play 10 checking.run (initial .start, [])

/-- After a minute, when the timer has raised its checks. -/
def ticked : Clockwork where
  now := .ofMillis 60000
  coordinator := { Coordinator.initial with signals := ⟨false, true, true⟩ }
  timer := some (.of (.ofSecs 60) (.ofSecs 60),
    .ringing ⟨.ofMillis 120000, some (.ofMillis 120000)⟩)

/-- A number of steps later. -/
def tickedThen (n : Nat) : Program ExitCode × (Clockwork × List Exchange) :=
  outdated.recorded.play n watching.1 (ticked, watching.2.2)

theorem reaches_tickedThen (n : Nat) :
    clocked.recorded.Reaches checking.run (initial .start, []) (tickedThen n).1
      (tickedThen n).2 := by
  have htimer : watching.2.1.timer = some (.of (.ofSecs 60) (.ofSecs 60),
      .choosing ⟨.ofMillis 60000, some (.ofMillis 60000)⟩) := by decide +kernel
  have hnow : watching.2.1.now ≤ .ofMillis 60000 := by decide +kernel
  have hadd : watching.2.1.coordinator.addSignals? ⟨false, true, true⟩ =
      some ticked.coordinator := by decide +kernel
  have tick : clocked.recorded.Reaches watching.1 watching.2 watching.1
      (ticked, watching.2.2) :=
    reaches_tick watching.1 htimer hnow (by decide +kernel) (by decide +kernel) (by decide) hadd
  exact ((outdated.recorded.reaches 10 checking.run (initial .start, [])).trans tick).trans
    (outdated.recorded.reaches n _ _)

/-- The install that follows comes after a check that found something newer. -/
theorem gateway_obeys_policy_minutely : ∃ c next t history,
    (Config.ofText ⟨⟨[], []⟩, none, "/tmp"⟩ minutely).value = .ok c ∧
    clocked.recorded.Reaches (⟨.ofConfig c, checking.keeper⟩ : Supervisor).run
      (initial .start, []) (.ask .updateServer next) (t, history) ∧
    lastCall? .server (diary history).calls = some (.check .server true) ∧
    (diary history).signals.updateCheck = true := by
  obtain ⟨c, hc, hsettings⟩ := minutely_accepted
  obtain ⟨next, hnext⟩ : ∃ next, (tickedThen 9).1 = .ask .updateServer next := ⟨_, rfl⟩
  have reaches : clocked.recorded.Reaches (⟨.ofConfig c, checking.keeper⟩ : Supervisor).run
      (initial .start, []) (.ask .updateServer next) (tickedThen 9).2 := by
    rw [hsettings, ← hnext]
    exact reaches_tickedThen 9
  have obeys := gateway_obeys_policy checking.keeper .start hc reaches
  have hat : (diary (tickedThen 9).2.2).occasion.atInterval = true := by decide +kernel
  exact ⟨c, _, _, _, hc, reaches, obeys.install .server rfl, obeys.prompted trivial hat⟩

end Clockwork
end ServerWarden
