/-
# Every accepted configuration is normal

The three rules for an update policy feed each other: a framework that is none loses its checks,
which may leave the interval unused, and an interval that is dropped takes the checks with it.
`UpdateConfig.cleared` says their joint effect from what was written alone, without an order, and
`UpdateConfig.normalize_value` that the rules have it.  The result is normal
(`UpdateConfig.cleared_normal`), and nothing is left to do for a policy that is
(`UpdateConfig.Normal.normalize_eq`).
-/
import Mathlib.Data.List.TakeWhile
import ServerWarden.Proofs.Config.Normal
import ServerWarden.Proofs.Config.Settings

namespace ServerWarden

theorem Duration.isZero_iff {d : Duration} : d.isZero = true ↔ d = .zero := by
  constructor
  · intro h
    cases d
    exact congrArg Duration.mk (beq_iff_eq.mp h)
  · rintro rfl
    rfl

namespace UpdateConfig

variable {u : UpdateConfig}

/-! ## 1. Policies -/

/-- An interval is there if and only if a check uses it, and without a framework nothing is checked
for one. -/
structure Normal (u : UpdateConfig) : Prop where
  interval : u.interval = .zero ↔ u.server.onInterval = false ∧ u.framework.onInterval = false
  framework : u.FrameworkIdle

/-- No check uses the interval: the server has none at it, and a framework neither or is none. -/
def Unused (u : UpdateConfig) : Prop :=
  u.server.onInterval = false ∧ (u.framework.kind = .none ∨ u.framework.onInterval = false)

instance (u : UpdateConfig) : Decidable u.Unused := inferInstanceAs (Decidable (_ ∧ _))

/-- What is left of a written policy: the interval is cleared if no check uses it, a check at the
interval if there is none, and a check for a framework if there is none. -/
def cleared (u : UpdateConfig) : UpdateConfig := { u with
  interval := if u.Unused then .zero else u.interval
  server := { u.server with
    onInterval := if u.interval = .zero then false else u.server.onInterval }
  framework := { u.framework with
    onStartup := if u.framework.kind = .none then false else u.framework.onStartup
    onInterval := if u.framework.kind = .none ∨ u.interval = .zero then false
      else u.framework.onInterval
    onRelaunch := if u.framework.kind = .none then false else u.framework.onRelaunch
    onServerUpdate := if u.framework.kind = .none then false else u.framework.onServerUpdate } }

/-! Each rule is one update, whether it applies or not. -/

theorem clearFramework_eq (u : UpdateConfig) : u.clearFramework = { u with
    framework := { u.framework with
      onStartup := if u.framework.kind = .none then false else u.framework.onStartup
      onInterval := if u.framework.kind = .none then false else u.framework.onInterval
      onRelaunch := if u.framework.kind = .none then false else u.framework.onRelaunch
      onServerUpdate := if u.framework.kind = .none then false
        else u.framework.onServerUpdate } } := by
  unfold clearFramework
  split <;> rfl

theorem dropInterval_eq (u : UpdateConfig) : u.dropInterval.value = { u with
    interval := if u.server.onInterval = false ∧ u.framework.onInterval = false then .zero
      else u.interval } := by
  rw [dropInterval_value]
  obtain ⟨interval, attempts, server, framework⟩ := u
  by_cases hz : interval = .zero
  · subst hz
    have hz : Duration.zero.isZero = true := rfl
    simp [hz]
  · have hnz : interval.isZero = false := Bool.eq_false_iff.mpr (mt Duration.isZero_iff.mp hz)
    simp only [hnz]
    split <;> simp_all

theorem dropChecks_eq (u : UpdateConfig) : u.dropChecks.value = { u with
    server := { u.server with
      onInterval := if u.interval = .zero then false else u.server.onInterval }
    framework := { u.framework with
      onInterval := if u.interval = .zero then false else u.framework.onInterval } } := by
  rw [dropChecks_value]
  by_cases hz : u.interval = .zero
  · rw [if_pos (Duration.isZero_iff.mpr hz), if_pos hz, if_pos hz]
  · rw [if_neg (mt Duration.isZero_iff.mp hz), if_neg hz, if_neg hz]

theorem unused_clearFramework (u : UpdateConfig) : u.Unused ↔ u.server.onInterval = false ∧
    (if u.framework.kind = .none then false else u.framework.onInterval) = false := by
  unfold Unused
  split <;> simp [*]

/-- **The three rules together** do what `cleared` says. -/
theorem normalize_value (u : UpdateConfig) : u.normalize.value = u.cleared := by
  have hvalue : u.normalize.value = u.clearFramework.dropInterval.value.dropChecks.value := rfl
  rw [hvalue, dropChecks_eq, dropInterval_eq, clearFramework_eq, cleared]
  simp only [← unused_clearFramework, mk.injEq, ServerUpdateConfig.mk.injEq,
    FrameworkUpdateConfig.mk.injEq, true_and, and_true]
  by_cases hu : u.Unused
  · -- the interval goes, and the checks that go with it were off
    simp only [if_pos hu]
    obtain ⟨hserver, hkind | hframework⟩ := hu
    · simp [hserver, hkind]
    · simp [hserver, hframework]
  · -- the interval is the one that was written
    simp only [if_neg hu]
    by_cases hk : u.framework.kind = .none <;> simp [hk]

theorem cleared_normal (u : UpdateConfig) : u.cleared.Normal where
  framework := u.normalize_value ▸ u.normalize_frameworkIdle
  interval := by
    constructor
    · intro h
      by_cases hu : u.Unused
      · obtain ⟨hserver, hkind | hframework⟩ := hu
        · simp [cleared, hserver, hkind]
        · simp [cleared, hserver, hframework]
      · have hz : u.interval = .zero := by simpa [cleared, hu] using h
        simp [cleared, hz]
    · rintro ⟨hserver, hframework⟩
      by_cases hu : u.Unused
      · exact if_pos hu
      · by_cases hz : u.interval = .zero
        · exact (if_neg hu).trans hz
        · -- with the interval there, a check that is off now was off before
          have hs : u.server.onInterval = false := (if_neg hz).symm.trans hserver
          have hf : u.framework.kind = .none ∨ u.framework.onInterval = false := by
            by_cases hk : u.framework.kind = .none
            · exact .inl hk
            · exact .inr (by simpa [cleared, hk, hz] using hframework)
          exact absurd ⟨hs, hf⟩ hu

/-! ## 2. A normal policy stays as it is -/

theorem Normal.clearFramework (h : u.Normal) : u.clearFramework = u := by
  unfold UpdateConfig.clearFramework
  split
  · next hk =>
    obtain ⟨hstartup, hinterval, hrelaunch, hafter⟩ := h.framework hk
    obtain ⟨interval, attempts, server, framework⟩ := u
    cases framework
    simp_all
  · rfl

theorem Normal.dropInterval (h : u.Normal) : u.dropInterval = pure u := by
  unfold UpdateConfig.dropInterval
  rw [if_neg]
  intro hunused
  simp only [Bool.and_eq_true, Bool.not_eq_true', and_assoc] at hunused
  obtain ⟨hnz, hchecks⟩ := hunused
  have hz : u.interval.isZero = true := Duration.isZero_iff.mpr (h.interval.mpr hchecks)
  exact nomatch hnz.symm.trans hz

theorem Normal.dropChecks (h : u.Normal) : u.dropChecks = pure u := by
  unfold UpdateConfig.dropChecks
  split
  · next hz =>
    obtain ⟨hserver, hframework⟩ := h.interval.mp (Duration.isZero_iff.mp hz)
    obtain ⟨interval, attempts, server, framework⟩ := u
    cases server
    cases framework
    simp_all
  · rfl

/-- **Normalising a normal policy** changes nothing and says nothing. -/
theorem Normal.normalize_eq (h : u.Normal) : u.normalize = pure u := by
  unfold UpdateConfig.normalize
  rw [h.clearFramework, h.dropInterval]
  exact h.dropChecks

end UpdateConfig

/-! ## 3. Configurations -/

/-- A text that is more than blanks. -/
def Text.HasWord (t : String) : Prop := ∃ c ∈ t.toList, Text.isBlank c = false

theorem Text.hasWord_of_trim {t : String} (h : (Text.trim t).isEmpty ≠ true) : Text.HasWord t := by
  by_cases hw : Text.HasWord t
  · exact hw
  · have hblank : ∀ c ∈ t.toList, Text.isBlank c = true := by
      intro c hc
      cases hb : Text.isBlank c with
      | true => rfl
      | false => exact absurd ⟨c, hc, hb⟩ hw
    refine absurd ?_ h
    simp [Text.trim, Text.trimChars, Text.dropWhileEnd, List.dropWhile_eq_nil_iff.mpr hblank]

namespace Config

/-- A configuration that a session can rely on. -/
structure Normal (c : Config) : Prop where
  update : c.update.Normal
  seed : ∀ seeds, c.seed = .list seeds → seeds ≠ []
  installPath : c.installPath ≠ ""
  identity : Text.HasWord c.identity
  password : c.rcon.password ≠ ""
  ip : Text.HasWord c.rcon.ip
  port : c.rcon.port ≠ 0
  chatIdentifier : c.rcon.chatIdentifier ≠ 0

/-- The strategy of seed settings, with the numbers that it needs. -/
inductive SeedSettings.Decides (s : SeedSettings) : SeedStrategy → Prop where
  | fixed {seed : Int} (kind : s.kind = .fixed) (given : s.fixed = some seed) :
    Decides s (.fixed seed)
  | list (kind : s.kind = .list) (given : s.list ≠ []) : Decides s (.list s.list)
  | random (kind : s.kind = .random) : Decides s .random

/-- A configuration has what a document says, and of the update policy what is left of it. -/
structure Says (d : Document) (c : Config) : Prop where
  installPath : c.installPath = d.install.path
  identity : c.identity = d.install.identity
  server : c.server = d.server
  rcon : c.rcon = d.rcon
  seed : d.seed.Decides c.seed
  update : c.update = d.update.cleared

theorem SeedSettings.decides_of_resolve {s : SeedSettings} {seed : SeedStrategy}
    (h : s.resolve = .ok seed) : s.Decides seed := by
  unfold SeedSettings.resolve at h
  split at h
  · next hkind =>
    split at h
    · next hgiven =>
      cases h
      exact .fixed hkind hgiven
    · exact nomatch h
  · next hkind =>
    split at h
    · exact nomatch h
    · next hgiven =>
      cases h
      exact .list hkind fun he => hgiven (List.isEmpty_iff.mpr he)
  · next hkind =>
    cases h
    exact .random hkind

/-- What a configuration without a fault satisfies besides its policy and its seed. -/
theorem normal_of_fault? {c : Config} (h : c.fault? = none) (hu : c.update.Normal)
    (hs : ∀ seeds, c.seed = .list seeds → seeds ≠ []) : c.Normal := by
  unfold fault? at h
  split at h
  · exact nomatch h
  · next hpath =>
  split at h
  · exact nomatch h
  · next hidentity =>
  split at h
  · exact nomatch h
  · next hpassword =>
  split at h
  · exact nomatch h
  · next hip =>
  split at h
  · exact nomatch h
  · next hport =>
  split at h
  · exact nomatch h
  · next hchat =>
  exact {
    update := hu
    seed := hs
    installPath := mt String.isEmpty_iff.mpr hpath
    identity := Text.hasWord_of_trim hidentity
    password := mt String.isEmpty_iff.mpr hpassword
    ip := Text.hasWord_of_trim hip
    port := hport
    chatIdentifier := hchat }

/-- **Every accepted configuration is normal**, so that normalising it again changes nothing and
says nothing, and it is what its document says: every setting is as it is written or has its
default, up to what the rules for an update policy clear. -/
theorem accepted_normal {host : Host} {text : String} {c : Config}
    (h : (ofText host text).value = .ok c) :
    c.Normal ∧ c.update.normalize = pure c.update ∧
      ∃ entries d, Toml.read? text = some entries ∧
        (∀ e ∈ Document.settings, e.Reads (.table .header entries) d) ∧ Says d c := by
  obtain ⟨d, seed, hd, hseed, rfl, hfault, -⟩ := described_of_ofText h
  obtain ⟨entries, hread, hreads⟩ := Document.reads hd
  have hdecides := SeedSettings.decides_of_resolve hseed
  have hupdate : d.update.normalize.value = d.update.cleared := d.update.normalize_value
  have hnormal : (described host d seed).update.Normal := by
    simp only [described, hupdate]
    exact d.update.cleared_normal
  have hlist : ∀ seeds, seed = .list seeds → seeds ≠ [] := by
    rintro seeds rfl
    cases hdecides with
    | list _ given => exact given
  exact ⟨normal_of_fault? hfault hnormal hlist, hnormal.normalize_eq, entries, d, hread, hreads,
    rfl, rfl, rfl, rfl, hdecides, hupdate⟩

/-! A file whose rules feed each other: without a framework the check at the interval goes, and with
it the interval. -/

def voidInterval : String :=
  "[install]\npath = \"/srv\"\nidentity = \"main\"\n[rcon]\npassword = \"secret\"\n" ++
    "[seed]\nstrategy = \"list\"\nlist = [7, 8]\n" ++
    "[update]\ninterval = \"1h\"\n[update.framework]\non_interval = true\n"

theorem voidInterval_accepted : ∃ c,
    (ofText ⟨⟨[], []⟩, none, "/tmp"⟩ voidInterval).value = .ok c ∧
      (c.seed, c.update) = (.list [7, 8], .default) :=
  exists_ok (by decide +kernel)

theorem accepted_normal_voidInterval : ∃ c,
    (ofText ⟨⟨[], []⟩, none, "/tmp"⟩ voidInterval).value = .ok c ∧
      (c.seed, c.update) = (.list [7, 8], .default) ∧ c.Normal ∧ c.update.normalize = pure c.update ∧
      ∃ entries d, Toml.read? voidInterval = some entries ∧
        (∀ e ∈ Document.settings, e.Reads (.table .header entries) d) ∧ Says d c := by
  obtain ⟨c, hc, htold⟩ := voidInterval_accepted
  exact ⟨c, hc, htold, accepted_normal hc⟩

end Config
end ServerWarden
