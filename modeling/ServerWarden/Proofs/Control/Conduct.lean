/-
# The order that a session keeps

`Diary.Admits` says what a session may ask for next, by its diary: a table with one line for each
kind of request that is bound to something.  The server is touched only while the timer does not
run.  A process is started, and the gateway asked, only while nothing has happened yet that ends the
session.  What is installed was found out of date by the last check for it in the same pass, and
what is checked is wanted at the occasion, or was just installed.

Every run of a session keeps to the table, with any answers at all (`Supervisor.run_conducted`), and
its exit code is the one that its diary leads to (`Diary.Concluded`).  There is one lemma for each
part of the program, in the order of the program text.  Each says what the part leaves in the diary:
a start that fails is noted as such and a start that succeeds is not (`Keeper.start_conducted`), and
a session that goes on has its timer running again (`Supervisor.handleWake_conducted`).
-/
import ServerWarden.Proofs.Control.Diary

namespace ServerWarden

universe u

open Surroundings

/-- Requests to the gateway. -/
def Request.AsksGateway : ⦃β : Type⦄ → Request β → Prop
  | _, .checkServer => True
  | _, .checkFramework => True
  | _, .updateServer => True
  | _, .updateFramework _ => True
  | _, _ => False

/-! ## 1. What a diary admits -/

namespace Diary

/-- Nothing has happened yet that ends the session. -/
def Undecided (s : SupervisorSettings) (d : Diary) : Prop := verdicts s d.notes = []

/-- Once a note decides, nothing else has decided. -/
theorem Undecided.decided {n : Note} {s : SupervisorSettings} {d : Diary} {code : ExitCode}
    (h : d.Undecided s) (hn : n.exitCode? s.autoRestart = some code) :
    verdicts s (d.notes ++ [n]) = [code] := by
  rw [verdicts_append, verdicts_singleton hn, h]
  rfl

theorem Undecided.append {notes : List Note} {s : SupervisorSettings} {d : Diary}
    (h : d.Undecided s) (hn : verdicts s notes = []) :
    verdicts s (d.notes ++ notes) = [] := by
  rw [verdicts_append, h, hn]
  rfl

/-- Checks at intervals are made only if they were signalled. -/
def Prompted (d : Diary) : Prop := d.occasion.atInterval = true → d.signals.updateCheck = true

/-- What a pass may begin with: the server if that is wanted, and then the framework if that is
wanted, or if a newer server was just found and the two go together. -/
def MayBegin (s : SupervisorSettings) (d : Diary) : ArtifactKind → Prop
  | .server => d.calls = [] ∧ (d.occasion.policy s).server = true
  | .framework => (d.calls = [] ∨ ∃ newer, d.calls = [.check .server newer]) ∧
      ((d.occasion.policy s).framework = true ∨
        s.frameworkOnServerUpdate = true ∧ d.calls = [.check .server true])

/-- A check begins a pass, or follows an install of the same artifact. -/
def MayCheck (s : SupervisorSettings) (d : Diary) (k : ArtifactKind) : Prop :=
  d.MayBegin s k ∨ lastCall? k d.calls = some (.install k)

/-- The last call for the artifact was a check that found something newer. -/
def MayInstall (d : Diary) (k : ArtifactKind) : Prop :=
  lastCall? k d.calls = some (.check k true)

/-- **What may be asked for.** -/
def Admits (s : SupervisorSettings) : ⦃β : Type⦄ → Request β → Diary → Prop
  | _, .spawn _, d => d.ticking = false ∧ d.Undecided s
  | _, .interrupt _, d => d.ticking = false
  | _, .terminate _, d => d.ticking = false
  | _, .command text _, d => d.ticking = true → text = Keeper.queryCommand ∧ d.delayed = false
  | _, .checkServer, d => d.Undecided s ∧ d.Prompted ∧ d.MayCheck s .server
  | _, .checkFramework, d => d.Undecided s ∧ d.Prompted ∧ d.MayCheck s .framework
  | _, .updateServer, d =>
    d.ticking = false ∧ d.Undecided s ∧ d.Prompted ∧ d.MayInstall .server
  | _, .updateFramework _, d =>
    d.ticking = false ∧ d.Undecided s ∧ d.Prompted ∧ d.MayInstall .framework
  | _, .startTimer _ update, _ => update = s.updateInterval
  | _, .waitForSignals, d => d.ticking = true
  | _, .joinTimer, d => d.phase = .stop
  | _, _, _ => True

end Diary

/-- Surroundings of which only the diary is known: every answer is possible at any time. -/
def noted : Surroundings Diary where
  answers _ r d b d' := d' = d.add ⟨r, b⟩
  moves _ _ := False

/-- Nothing is asked for but what the diary admits. -/
def conduct (s : SupervisorSettings) : Duty Diary where
  always _ := True
  asking _ r d := d.Admits s r

/-! ## 2. Rules -/

section Rules

variable {α β : Type} {s : SupervisorSettings} {d : Diary} {post : α → Diary → Prop}

/-- What is known of a diary stays known until something is asked for. -/
def knowing (s : SupervisorSettings) (P : Diary → Prop) : Condition noted (conduct s) where
  holds := P
  stable _ _ hm := hm.elim
  always _ _ := trivial

theorem ended {a : α} (h : post a d) : noted.Upholds (conduct s) (pure a) d post :=
  .done (knowing s (· = d)) rfl fun _ ht => ht ▸ h

theorem asked {r : Request β} {f : β → Program α} (hr : d.Admits s r)
    (hf : ∀ b, noted.Upholds (conduct s) (f b) (d.add ⟨r, b⟩) post) :
    noted.Upholds (conduct s) (Program.request r >>= f) d post := by
  refine .request (knowing s (· = d)) rfl (fun t ht => ht ▸ hr) fun t b t' ht ha => ?_
  cases ht
  cases ha
  exact hf b

/-- A request that leaves no trace. -/
theorem passed {r : Request β} {f : β → Program α} (hd : ∀ b, d.add ⟨r, b⟩ = d)
    (hr : d.Admits s r) (hf : ∀ b, noted.Upholds (conduct s) (f b) d post) :
    noted.Upholds (conduct s) (Program.request r >>= f) d post :=
  asked hr fun b => (hd b).symm ▸ hf b

/-- A request that nothing follows. -/
theorem askedLast {r : Request α} (hr : d.Admits s r) (hpost : ∀ b, post b (d.add ⟨r, b⟩)) :
    noted.Upholds (conduct s) (Program.request r) d post :=
  asked (f := pure) hr fun b => ended (hpost b)

end Rules

/-! ## 3. Starting and stopping -/

namespace Diary

variable {d : Diary} {h : Handle} {up : Bool}

theorem add_isRunning_of_resting (hd : d.ticking = false) :
    d.add ⟨.isRunning h, up⟩ = d.watch h up := by
  simp [add, hd]

theorem add_setPhase {p : TimerPhase} {b : Unit} (hd : d.phase ≠ .stop) :
    d.add ⟨.setPhase p, b⟩ = { d with phase := p, looked := false } := by
  simp [add, hd]

theorem add_setPhase_stop {b : Unit} :
    d.add ⟨.setPhase .stop, b⟩ = { d with phase := .stop, looked := false } := by
  simp [add]

theorem watch_of_not_rising (hr : d.rising = none) : d.watch h up = d := by
  simp [watch, hr]

/-- The diary after a start. -/
def started (d : Diary) (up : Bool) : Diary :=
  { d with
    delayed := false
    rising := none
    notes := d.notes ++ if up then [] else [.startFailed d.occasion] }

end Diary

namespace Keeper

variable {s : SupervisorSettings} {d : Diary}

/-- A new process is looked at until it is seen running. -/
theorem awaitStart_conducted (h : Handle) (interval : Duration) (attempts : Nat)
    (hd : d.ticking = false) (hr : d.rising = some h) :
    noted.Upholds (conduct s) (awaitStart h interval attempts) d fun up u =>
      u = if up then { d with rising := none } else d := by
  induction attempts with
  | zero => exact ended rfl
  | succ attempts ih =>
    refine asked trivial fun up => ?_
    rw [Diary.add_isRunning_of_resting hd]
    cases up with
    | true => exact ended (by simp [Diary.watch, hr])
    | false =>
      refine .bind (M := fun _ u => u = d) ?_ fun _ u hu => hu ▸ ih
      unfold pause
      split
      · exact ended rfl
      · exact askedLast trivial fun _ => rfl

/-- A process that is ended before it was seen running is a start that failed. -/
theorem discard_conducted (h : Handle) (hd : d.ticking = false) (hr : d.rising = some h) :
    noted.Upholds (conduct s) (discard h) d fun _ u =>
      u = { d with rising := none, notes := d.notes ++ [.startFailed d.occasion] } := by
  refine asked (r := .terminate h) hd fun result => ?_
  have hadd : d.add ⟨.terminate h, result⟩ =
      { d with rising := none, notes := d.notes ++ [.startFailed d.occasion] } := by
    simp [Diary.add, Diary.finish, hr]
  rw [hadd]
  cases result with
  | ok _ => exact askedLast trivial fun _ => rfl
  | error e => exact passed (fun _ => rfl) trivial fun _ => askedLast trivial fun _ => rfl

/-- **A start** is made while nothing is decided and the timer does not run.  It is noted exactly if
it fails. -/
theorem start_conducted (k : Keeper) (hd : d.ticking = false) (hu : d.Undecided s)
    (hr : d.rising = none) :
    noted.Upholds (conduct s) (k.start none) d fun result u =>
      u = d.started result.1 ∧ result.2.isSome = result.1 := by
  refine .bind (M := fun up u => up = false ∧ u = d) (ended ⟨rfl, rfl⟩) ?_
  rintro up u ⟨rfl, rfl⟩
  refine passed (fun _ => rfl) trivial fun _ => asked ⟨hd, hu⟩ fun result => ?_
  cases result with
  | error e =>
    refine passed (fun _ => rfl) trivial fun _ => ended ⟨?_, rfl⟩
    simp [Diary.add, Diary.spawned, Diary.started, hr]
  | ok h =>
    refine .bind (awaitStart_conducted h _ _ hd rfl) fun up u hu => ?_
    subst hu
    cases up with
    | true =>
      refine passed (fun _ => rfl) trivial fun _ => passed (fun _ => rfl) trivial fun _ => ?_
      exact ended ⟨by simp [Diary.add, Diary.spawned, Diary.started], rfl⟩
    | false =>
      refine passed (fun _ => rfl) trivial fun _ => .bind (discard_conducted h hd rfl) ?_
      rintro - u rfl
      exact ended ⟨rfl, rfl⟩

/-- What a stop asks for leaves nothing in a diary but that a shutdown was held back. -/
theorem tends_conducted {β : Type} {r : Request β} (hr : r.Tends) (hd : d.ticking = false)
    (hn : d.rising = none) :
    d.Admits s r ∧ ∀ b, ∃ delayed, d.add ⟨r, b⟩ = { d with delayed } := by
  cases r
  case deadline span => exact ⟨trivial, fun _ => ⟨true, rfl⟩⟩
  case isRunning h =>
    refine ⟨trivial, fun up => ⟨d.delayed, ?_⟩⟩
    rw [Diary.add_isRunning_of_resting hd, Diary.watch_of_not_rising hn]
  case interrupt h => exact ⟨hd, fun _ => ⟨d.delayed, rfl⟩⟩
  case terminate h =>
    refine ⟨hd, fun _ => ⟨d.delayed, if_neg ?_⟩⟩
    simp [hn]
  case command text timeout =>
    exact ⟨fun ht => absurd (hd.symm.trans ht) (by decide), fun _ => ⟨d.delayed, rfl⟩⟩
  all_goals first
    | exact ⟨trivial, fun _ => ⟨d.delayed, rfl⟩⟩
    | exact (hr.elim id id).elim

/-- **A stop** is made while the timer does not run. -/
theorem stop_conducted (k : Keeper) (held : Option Handle) (reason : String)
    (hd : d.ticking = false) (hn : d.rising = none) :
    noted.Upholds (conduct s) (k.stop held reason) d fun _ u => ∃ delayed, u = { d with delayed } :=
  .of_asks (knowing s fun u => ∃ delayed, u = { d with delayed }) (k.stop_tends held reason)
    (by
      rintro β r u hr ⟨delayed, rfl⟩
      obtain ⟨hadmits, hadd⟩ :=
        tends_conducted (s := s) (d := { d with delayed }) hr hd hn
      refine ⟨hadmits, ?_⟩
      rintro b u rfl
      obtain ⟨delayed', hu⟩ := hadd b
      exact ⟨delayed', hu⟩)
    ⟨d.delayed, rfl⟩

end Keeper

/-! ## 4. Maintenance -/

/-- What is installed. -/
def ArtifactKind.artifact (quiet : Bool) : ArtifactKind → Maintenance.Artifact
  | .server => Maintenance.serverArtifact
  | .framework => Maintenance.frameworkArtifact quiet

namespace Diary

variable {d u : Diary} {k : ArtifactKind} {quiet : Bool}

theorem add_install (d : Diary) (k : ArtifactKind) (quiet : Bool) (b : Unit) :
    d.add ⟨(k.artifact quiet).install, b⟩ = d.call (.install k) := by
  cases k <;> rfl

theorem add_check (d : Diary) (k : ArtifactKind) (quiet newer : Bool) :
    d.add ⟨(k.artifact quiet).check, newer⟩ = d.call (.check k newer) := by
  cases k <;> rfl

/-- What was found out of date was found so by the last check for it. -/
def Backs (plan : UpdatePlan) (d : Diary) : Prop :=
  (plan.server = true → d.MayInstall .server) ∧ (plan.framework = true → d.MayInstall .framework)

/-- The diary of a pass that does nothing but ask the gateway, since it was `d`. -/
structure Passing (d u : Diary) : Prop where
  rest : u = { d with calls := u.calls, occasion := u.occasion }
  occasion : u.occasion.installing = d.occasion.installing

theorem Passing.trans {v : Diary} (h : Passing d u) (h' : Passing u v) : Passing d v where
  rest := by
    obtain ⟨hr', -⟩ := h'
    rw [hr', h.rest]
  occasion := h'.occasion.trans h.occasion

theorem Passing.atInterval (h : Passing d u) : u.occasion.atInterval = d.occasion.atInterval := by
  simp only [Occasion.atInterval, h.occasion]

theorem Passing.prompted (h : Passing d u) (hp : d.Prompted) : u.Prompted := by
  have hat := h.atInterval
  obtain ⟨hr, -⟩ := h
  rw [hr]
  exact fun hi => hp (hat ▸ hi)

theorem Passing.undecided {s : SupervisorSettings} (h : Passing d u) (hu : d.Undecided s) :
    u.Undecided s := by
  rw [h.rest]
  exact hu

theorem Passing.call (h : Passing d u) (c : GatewayCall) : Passing d (u.call c) := by
  obtain ⟨hr, ho⟩ := h
  rw [hr]
  cases c with
  | check k newer => exact ⟨rfl, ho⟩
  | install k => exact ⟨rfl, (Occasion.installing_installing _).trans ho⟩

/-- The diary after a check, if it was wanted. -/
def checked (d : Diary) (k : ArtifactKind) (wanted newer : Bool) : Diary :=
  if wanted then d.call (.check k newer) else d

section Checked

variable (d : Diary) (k : ArtifactKind) (wanted newer : Bool)

theorem checked_passing : Passing d (d.checked k wanted newer) := by
  unfold checked
  split <;> exact ⟨rfl, rfl⟩

theorem checked_occasion : (d.checked k wanted newer).occasion = d.occasion := by
  unfold checked
  split <;> rfl

end Checked

/-- What was found out of date by a check may be installed. -/
theorem checked_mayInstall {wanted newer : Bool} (hw : newer = true → wanted = true)
    (hn : newer = true) : (d.checked k wanted newer).MayInstall k := by
  rw [checked, if_pos (hw hn), hn]
  exact lastCall?_append_self rfl

/-- A check of one artifact leaves the other one as it was. -/
theorem MayInstall.checked {k' : ArtifactKind} {wanted newer : Bool} (h : d.MayInstall k)
    (hne : k' ≠ k) : (d.checked k' wanted newer).MayInstall k := by
  unfold Diary.checked
  split
  · exact (lastCall?_append_of_ne (c := .check k' newer) hne).trans h
  · exact h

/-- After the first check of a pass, the pass has at most that call. -/
theorem checked_calls {wanted newer : Bool} (hc : d.calls = []) :
    (d.checked k wanted newer).calls = [] ∨
    (d.checked k wanted newer).calls = [.check k newer] := by
  unfold Diary.checked
  split
  · exact Or.inr (congrArg (· ++ [GatewayCall.check k newer]) hc)
  · exact Or.inl hc

end Diary

namespace Maintenance

variable {s : SupervisorSettings} {d u : Diary} {k : ArtifactKind}

/-- Whether a pass may go on to install. -/
structure Installable (s : SupervisorSettings) (d : Diary) : Prop where
  resting : d.ticking = false
  undecided : d.Undecided s
  prompted : d.Prompted

theorem Installable.passing (h : Installable s d) (hp : Diary.Passing d u) : Installable s u where
  resting := by
    rw [hp.rest]
    exact h.resting
  undecided := hp.undecided h.undecided
  prompted := hp.prompted h.prompted

theorem Installable.admits_install (h : Installable s d) (hk : d.MayInstall k) (quiet : Bool) :
    d.Admits s (k.artifact quiet).install := by
  cases k <;> exact ⟨h.resting, h.undecided, h.prompted, hk⟩

theorem Installable.admits_check (h : Installable s d) (hk : d.MayCheck s k) (quiet : Bool) :
    d.Admits s (k.artifact quiet).check := by
  cases k <;> exact ⟨h.undecided, h.prompted, hk⟩

/-- A check at the beginning of a pass. -/
theorem checkIf_conducted (k : ArtifactKind) {wanted : Bool} {text : String}
    (hu : d.Undecided s) (hp : d.Prompted) (hw : wanted = true → d.MayBegin s k) :
    noted.Upholds (conduct s) (checkIf wanted text (k.artifact false).check) d fun newer u =>
      (newer = true → wanted = true) ∧ u = d.checked k wanted newer := by
  cases wanted with
  | false => exact ended ⟨nofun, rfl⟩
  | true =>
    have hr : d.Admits s (k.artifact false).check := by
      cases k <;> exact ⟨hu, hp, Or.inl (hw rfl)⟩
    refine passed (fun _ => rfl) trivial fun _ => askedLast hr fun newer => ⟨fun _ => rfl, ?_⟩
    exact Diary.add_check d k false newer

/-- **A pass begins** with the checks that are wanted at its occasion. -/
theorem check_conducted {policy : UpdatePolicy} (hpol : d.occasion.policy s = policy)
    (hc : d.calls = []) (hu : d.Undecided s) (hp : d.Prompted) :
    noted.Upholds (conduct s) (check policy s.frameworkOnServerUpdate) d fun plan u =>
      Diary.Passing d u ∧ u.occasion = d.occasion ∧ u.Backs plan := by
  subst hpol
  refine .bind (checkIf_conducted .server hu hp fun hw => ⟨hc, hw⟩) ?_
  rintro server u ⟨hs, hu'⟩
  have hpass : Diary.Passing d u := hu' ▸ d.checked_passing _ _ _
  have ho : u.occasion = d.occasion := hu' ▸ d.checked_occasion _ _ _
  have hcalls : u.calls = [] ∨ u.calls = [.check .server server] := hu' ▸ Diary.checked_calls hc
  have hfound (h : server = true) : u.MayInstall .server := hu' ▸ Diary.checked_mayInstall hs h
  refine .bind (checkIf_conducted .framework (hpass.undecided hu) (hpass.prompted hp) ?_) ?_
  · refine fun hw => ⟨hcalls.imp_right fun h => ⟨server, h⟩, ?_⟩
    rcases Bool.or_eq_true_iff.mp hw with hf | hf
    · exact Or.inl (ho ▸ hf)
    · -- a server that was found out of date was checked
      obtain ⟨htogether, rfl⟩ := Bool.and_eq_true_iff.mp hf
      refine Or.inr ⟨htogether, hcalls.resolve_left fun hnil => ?_⟩
      have hlast := hfound rfl
      rw [Diary.MayInstall, hnil] at hlast
      exact nomatch hlast
  · rintro framework v ⟨hf, rfl⟩
    have hne : ArtifactKind.framework ≠ .server := by decide
    refine ended ⟨hpass.trans (u.checked_passing _ _ _), (u.checked_occasion _ _ _).trans ho, ?_⟩
    exact ⟨fun h => (hfound h).checked hne, Diary.checked_mayInstall hf⟩

/-- One attempt: an install, and the check that follows it. -/
theorem attempt_conducted (quiet : Bool) (retry : RetryPolicy) (before : UInt32)
    (h : Installable s d) (hp : Diary.Passing d u) (hk : u.MayInstall k) :
    noted.Upholds (conduct s) (attempt (k.artifact quiet) retry before) u fun next v =>
      Diary.Passing d v ∧ v.occasion = d.occasion.installing ∧
      (∀ k' ≠ k, lastCall? k' v.calls = lastCall? k' u.calls) ∧
      ∀ n, next = .inl n → v.MayInstall k := by
  have hu : Installable s u := h.passing hp
  refine asked (hu.admits_install hk quiet) fun b => ?_
  rw [Diary.add_install]
  have hpi := hp.call (.install k)
  have hc : (u.call (.install k)).MayCheck s k := Or.inr (lastCall?_append_self rfl)
  refine asked ((h.passing hpi).admits_check hc quiet) fun newer => ?_
  rw [Diary.add_check]
  have hpc := hpi.call (.check k newer)
  have hothers (k' : ArtifactKind) (hne : k' ≠ k) :
      lastCall? k' ((u.call (.install k)).call (.check k newer)).calls = lastCall? k' u.calls :=
    (lastCall?_append_of_ne (c := .check k newer) hne.symm).trans
      (lastCall?_append_of_ne (c := .install k) hne.symm)
  cases newer with
  | false => exact passed (fun _ => rfl) trivial fun _ => ended ⟨hpc, hp.occasion, hothers, nofun⟩
  | true =>
    simp only [Bool.not_true, Bool.false_eq_true, if_false]
    split
    · exact passed (fun _ => rfl) trivial fun _ => ended ⟨hpc, hp.occasion, hothers, nofun⟩
    · refine passed (fun _ => rfl) trivial fun _ => passed (fun _ => rfl) trivial fun _ => ?_
      exact ended ⟨hpc, hp.occasion, hothers, fun _ _ => lastCall?_append_self rfl⟩

/-- **An install** is repeated only after a check that found something newer. -/
theorem install_conducted (quiet : Bool) (retry : RetryPolicy) (h : Installable s d)
    (hk : d.MayInstall k) :
    noted.Upholds (conduct s) (install (k.artifact quiet) retry) d fun _ v =>
      Diary.Passing d v ∧ v.occasion = d.occasion.installing ∧
      ∀ k' ≠ k, lastCall? k' v.calls = lastCall? k' d.calls := by
  refine passed (fun _ => rfl) trivial fun _ => .iterate
    (fun _ u => Diary.Passing d u ∧ u.MayInstall k ∧
      ∀ k' ≠ k, lastCall? k' u.calls = lastCall? k' d.calls) ?_ ⟨⟨rfl, rfl⟩, hk, fun _ _ => rfl⟩
  rintro before u ⟨hp, hu, hothers⟩
  refine (attempt_conducted quiet retry before h hp hu).mono fun next v => ?_
  rintro ⟨hpv, hov, hsame, hagain⟩
  have hothers' (k' : ArtifactKind) (hne : k' ≠ k) :
      lastCall? k' v.calls = lastCall? k' d.calls := (hsame k' hne).trans (hothers k' hne)
  cases next with
  | inl n => exact ⟨hpv, hagain n rfl, hothers'⟩
  | inr confirmed => exact ended ⟨hpv, hov, hothers'⟩

/-- **A plan is installed** that checks of the same pass back. -/
theorem installAll_conducted (plan : UpdatePlan) (serverRetry frameworkRetry : RetryPolicy)
    (h : Installable s d) (hplan : d.Backs plan) :
    noted.Upholds (conduct s) (installAll plan serverRetry frameworkRetry) d fun _ v =>
      Diary.Passing d v ∧ (plan.any = true → v.occasion = d.occasion.installing) := by
  obtain ⟨server, framework⟩ := plan
  refine .bind (M := fun _ u => Diary.Passing d u ∧
    (server = true → u.occasion = d.occasion.installing) ∧
    lastCall? .framework u.calls = lastCall? .framework d.calls) ?_ fun _ u hu => ?_
  · cases server with
    | false => exact ended ⟨⟨rfl, rfl⟩, nofun, rfl⟩
    | true =>
      refine .bind (install_conducted (k := .server) false serverRetry h (hplan.1 rfl))
        fun _ u hu => ended ⟨hu.1, fun _ => hu.2.1, hu.2.2 .framework nofun⟩
  · obtain ⟨hp, ho, hf⟩ := hu
    cases framework with
    | false => exact ended ⟨hp, fun hany => ho (by simpa [UpdatePlan.any] using hany)⟩
    | true =>
      have hk : u.MayInstall .framework := hf.trans (hplan.2 rfl)
      refine .bind (install_conducted (k := .framework) server frameworkRetry (h.passing hp) hk)
        fun _ v hv => ended ⟨hp.trans hv.1, fun _ => ?_⟩
      exact hv.2.1.trans hp.occasion

end Maintenance

/-! ## 5. The session -/

namespace Diary

variable {s : SupervisorSettings} {d u : Diary} {code : ExitCode} {k : ArtifactKind}

/-- Nothing is decided, and no start is under way. -/
structure Open (s : SupervisorSettings) (d : Diary) : Prop where
  joined : d.joined = none
  rising : d.rising = none
  undecided : d.Undecided s

/-- Between two turns. -/
structure Waiting (s : SupervisorSettings) (d : Diary) : Prop extends d.Open s where
  timed : d.timed = true
  phase : d.phase = .run

/-- In a turn, before the server was looked at. -/
structure Awake (s : SupervisorSettings) (d : Diary) : Prop extends d.Waiting s where
  looked : d.looked = false
  delayed : d.delayed = false

/-- While the server is down. -/
structure Paused (s : SupervisorSettings) (d : Diary) : Prop extends d.Open s where
  timed : d.timed = true
  phase : d.phase = .pause

/-- Once it is decided how a session ends that came as far as the timer. -/
structure Leaving (s : SupervisorSettings) (code : ExitCode) (d : Diary) : Prop where
  joined : d.joined = none
  rising : d.rising = none
  timed : d.timed = true
  phase : d.phase ≠ .run
  verdicts : verdicts s d.notes = [code]
  started : code ≠ .startFailure

/-- **How a session ends**: with the exit code that its diary leads to, unless the timer failed; and
the timer was never started if the first start failed. -/
structure Concluded (s : SupervisorSettings) (code : ExitCode) (d : Diary) : Prop where
  verdicts : d.joined ≠ some false → verdicts s d.notes = [code]
  unstarted : code = .startFailure → d.timed = false

theorem Waiting.ticking (h : d.Waiting s) : d.ticking = true := by
  simp [Diary.ticking, h.timed, h.phase]

theorem Paused.resting (h : d.Paused s) : d.ticking = false := by
  simp [Diary.ticking, h.phase]

theorem Open.passing (h : d.Open s) (hp : Passing d u) : u.Open s := by
  rw [hp.rest]
  exact ⟨h.joined, h.rising, h.undecided⟩

theorem Paused.passing (h : d.Paused s) (hp : Passing d u) : u.Paused s where
  toOpen := h.toOpen.passing hp
  timed := by
    rw [hp.rest]
    exact h.timed
  phase := by
    rw [hp.rest]
    exact h.phase

/-- What a step of a session leaves: a server that is kept while it goes on, and a decision at its
end. -/
def Stepped (s : SupervisorSettings) (P : Diary → Prop) (step : Supervisor.Step) (d : Diary) :
    Prop :=
  match step.2 with
  | none => P d ∧ step.1.held.isSome = true
  | some code => d.Leaving s code

theorem Stepped.mono {P Q : Diary → Prop} {step : Supervisor.Step} (hPQ : ∀ d, P d → Q d)
    (h : Stepped s P step d) : Stepped s Q step d := by
  unfold Stepped at h ⊢
  split
  · next heq =>
    rw [heq] at h
    exact h.imp_left (hPQ d)
  · next heq =>
    rw [heq] at h
    exact h

end Diary

namespace Supervisor

variable {s : Supervisor} {d : Diary} {m : Memory}

/-- A start after which the timer runs again, or the session ends. -/
theorem resume_conducted {text : String} {code : ExitCode} (hd : d.Paused s.settings)
    (hcode : Note.exitCode? s.settings.autoRestart (.startFailed d.occasion) = some code)
    (hs : code ≠ .startFailure) :
    noted.Upholds (conduct s.settings)
      (do
        let (up, held) ← s.keeper.start none
        if up then
          .request (.setPhase .run)
          return ({ m with held }, none)
        else
          error text
          return ({ m with held }, some code) : Program Step) d
      (Diary.Stepped s.settings (Diary.Awake s.settings)) := by
  refine .bind (s.keeper.start_conducted hd.resting hd.undecided hd.rising) ?_
  rintro ⟨up, held⟩ u ⟨rfl, hheld⟩
  cases up with
  | true =>
    have hphase : (d.started true).phase ≠ .stop := by simp [Diary.started, hd.phase]
    refine asked trivial fun _ => ?_
    rw [Diary.add_setPhase hphase]
    exact ended ⟨⟨⟨⟨hd.joined, rfl, hd.undecided.append rfl⟩, hd.timed, rfl⟩, rfl, rfl⟩, hheld⟩
  | false =>
    have hphase : d.phase ≠ .run := by simp [hd.phase]
    refine passed (fun _ => rfl) trivial fun _ => ended ?_
    exact ⟨hd.joined, rfl, hd.timed, hphase, hd.undecided.decided hcode, hs⟩

/-- The timer is paused before the server is touched. -/
theorem pause_conducted {α : Type} {f : Unit → Program α} {post : α → Diary → Prop}
    (hd : d.Waiting s.settings)
    (hf : ∀ u, u.Paused s.settings → u.occasion = d.occasion → u.signals = d.signals →
      u.calls = d.calls → noted.Upholds (conduct s.settings) (f ()) u post) :
    noted.Upholds (conduct s.settings) (Program.request (.setPhase .pause) >>= f) d post := by
  have hphase : d.phase ≠ .stop := by simp [hd.phase]
  refine asked trivial fun _ => ?_
  rw [Diary.add_setPhase hphase]
  exact hf _ ⟨⟨hd.joined, hd.rising, hd.undecided⟩, hd.timed, rfl⟩ rfl rfl rfl

/-- A stop leaves a session where it was. -/
theorem stop_paused (k : Keeper) (held : Option Handle) (reason : String)
    (hd : d.Paused s.settings) :
    noted.Upholds (conduct s.settings) (k.stop held reason) d fun _ u =>
      u.Paused s.settings ∧ u.occasion = d.occasion ∧ u.signals = d.signals ∧
      u.calls = d.calls := by
  refine (k.stop_conducted held reason hd.resting hd.rising).mono ?_
  rintro - u ⟨delayed, rfl⟩
  exact ⟨⟨⟨hd.joined, hd.rising, hd.undecided⟩, hd.timed, hd.phase⟩, rfl, rfl, rfl⟩

/-- **An install** with the server down before and up after it. -/
theorem installThenRestart_conducted (m : Memory) {plan : UpdatePlan} (hd : d.Awake s.settings)
    (hplan : d.Backs plan) (hany : plan.any = true) (ho : d.occasion = .wake) (hp : d.Prompted) :
    noted.Upholds (conduct s.settings) (s.installThenRestart m plan) d
      (Diary.Stepped s.settings (Diary.Awake s.settings)) := by
  refine pause_conducted hd.toWaiting fun u hu huo hus huc => ?_
  refine passed (fun _ => rfl) trivial fun _ => .bind (stop_paused _ _ _ hu) ?_
  rintro - v ⟨hv, hvo, hvs, hvc⟩
  have hback : v.Backs plan := by
    simpa only [Diary.Backs, Diary.MayInstall, hvc, huc] using hplan
  have hready : Maintenance.Installable s.settings v := by
    refine ⟨hv.resting, hv.undecided, ?_⟩
    simpa only [Diary.Prompted, hvo, huo, hvs, hus] using hp
  refine .bind (Maintenance.installAll_conducted plan _ _ hready hback) ?_
  rintro - w ⟨hw, hwo⟩
  have hupdate : w.occasion = .update := by
    rw [hwo hany, hvo, huo, ho]
    rfl
  refine passed (fun _ => rfl) trivial fun _ => resume_conducted (hv.passing hw) ?_ nofun
  rw [hupdate]
  rfl

/-- What is pending is installed. -/
theorem installPending_conducted {plan : UpdatePlan}
    (h : Maintenance.Installable s.settings d) (hplan : d.Backs plan)
    (ho : d.occasion.installing = d.occasion) :
    noted.Upholds (conduct s.settings) (s.installPending plan) d fun _ u =>
      Diary.Passing d u ∧ u.occasion = d.occasion := by
  unfold installPending
  split
  · next hany =>
    exact (Maintenance.installAll_conducted plan _ _ h hplan).mono fun _ _ hu =>
      ⟨hu.1, (hu.2 hany).trans ho⟩
  · exact ended ⟨⟨rfl, rfl⟩, rfl⟩

/-- **A server that was found down** is started again if that is wanted, and nothing else is done
otherwise. -/
theorem restartCrashed_conducted (m : Memory) (hd : d.Awake s.settings) :
    noted.Upholds (conduct s.settings) (s.restartCrashed m) d.crashed
      (Diary.Stepped s.settings (Diary.Awake s.settings)) := by
  unfold restartCrashed
  cases hauto : s.settings.autoRestart with
  | false =>
    have hdown : Note.exitCode? s.settings.autoRestart .foundDown =
        some .unexpectedStopRestartFailure := by simp [Note.exitCode?, hauto]
    refine asked trivial fun _ => passed (fun _ => rfl) trivial fun _ => ended ?_
    rw [Diary.add_setPhase_stop]
    exact ⟨hd.joined, hd.rising, hd.timed, nofun, hd.undecided.decided hdown, nofun⟩
  | true =>
    have hdown : verdicts s.settings [.foundDown] = [] := by
      simp [verdicts, Note.exitCode?, hauto]
    have hcrashed : d.crashed.Waiting s.settings :=
      ⟨⟨hd.joined, hd.rising, hd.undecided.append hdown⟩, hd.timed, hd.phase⟩
    refine pause_conducted hcrashed fun u hu huo _ huc => ?_
    refine passed (fun _ => rfl) trivial fun _ => .bind (stop_paused _ _ _ hu) ?_
    rintro - v ⟨hv, hvo, -, hvc⟩
    have ho : v.occasion = .relaunch := hvo.trans huo
    have hprompt : v.Prompted := by
      simp [Diary.Prompted, ho, Occasion.atInterval, Occasion.installing]
    have hpol : v.occasion.policy s.settings = s.settings.onRelaunch := by
      rw [ho]
      rfl
    refine .bind (Maintenance.check_conducted hpol (hvc.trans huc) hv.undecided hprompt) ?_
    rintro plan w ⟨hw, hwo, hback⟩
    have hready : Maintenance.Installable s.settings v := ⟨hv.resting, hv.undecided, hprompt⟩
    have hsame : w.occasion.installing = w.occasion := by
      rw [hwo, ho]
      rfl
    refine .bind (installPending_conducted (hready.passing hw) hback hsame) ?_
    rintro - x ⟨hx, hxo⟩
    refine passed (fun _ => rfl) trivial fun _ =>
      resume_conducted ((hv.passing hw).passing hx) ?_ nofun
    rw [hxo, hwo, ho]
    rfl

/-- A report is asked of a server that was seen running. -/
theorem query_conducted {h : Handle} (hd : d.Waiting s.settings) (hl : d.looked = true)
    (hdel : d.delayed = false) :
    noted.Upholds (conduct s.settings) (Keeper.query (some h)) d fun _ u => u = d := by
  refine asked trivial fun up => ?_
  have hadd : d.add ⟨.isRunning h, up⟩ = d := by
    simp [Diary.add, hd.ticking, Diary.look, hl]
  rw [hadd]
  cases up with
  | true => exact passed (fun _ => rfl) (fun _ => ⟨rfl, hdel⟩) fun _ => ended rfl
  | false => exact ended rfl

theorem noteHealth_conducted (m : Memory) (report : Health) :
    noted.Upholds (conduct s.settings) (noteHealth m report) d fun m' u =>
      u = d ∧ m'.held = m.held := by
  refine passed (fun _ => rfl) trivial fun _ => .bind (M := fun _ u => u = d) ?_ ?_
  · unfold noteProtocol
    split
    · split
      · exact askedLast trivial fun _ => rfl
      · exact ended rfl
    · exact ended rfl
  · rintro - u rfl
    exact ended ⟨rfl, rfl⟩

/-- **A health check**: the first look at the server decides. -/
theorem checkHealth_conducted (m : Memory) (hd : d.Awake s.settings)
    (hm : m.held.isSome = true) :
    noted.Upholds (conduct s.settings) (s.checkHealth m) d
      (Diary.Stepped s.settings (Diary.Waiting s.settings)) := by
  obtain ⟨h, hh⟩ := Option.isSome_iff_exists.mp hm
  unfold checkHealth
  rw [hh]
  refine asked trivial fun up => ?_
  have hadd : d.add ⟨.isRunning h, up⟩ = if up then { d with looked := true } else d.crashed := by
    simp [Diary.add, hd.ticking, Diary.look, hd.looked]
  rw [hadd]
  cases up with
  | false =>
    exact (restartCrashed_conducted m hd).mono fun _ _ hu => hu.mono fun _ => (·.toWaiting)
  | true =>
    have hw : ({ d with looked := true } : Diary).Waiting s.settings :=
      ⟨⟨hd.joined, hd.rising, hd.undecided⟩, hd.timed, hd.phase⟩
    refine .bind (query_conducted hw rfl hd.delayed) ?_
    rintro report u rfl
    cases report with
    | none => exact ended ⟨hw, hm⟩
    | some report =>
      refine .bind (noteHealth_conducted m report) ?_
      rintro m' u ⟨rfl, hm'⟩
      exact ended ⟨hw, hm' ▸ hm⟩

/-- What a wake does about updates. -/
theorem followUpdates_conducted (m : Memory) {signals : Signals} (hd : d.Awake s.settings)
    (hm : m.held.isSome = true) (ho : d.occasion = .wake) (hc : d.calls = [])
    (hs : d.signals = signals) :
    noted.Upholds (conduct s.settings) (s.followUpdates m signals) d
      (Diary.Stepped s.settings (Diary.Awake s.settings)) := by
  unfold followUpdates
  split
  · next hup =>
    have hprompt : d.Prompted := fun _ => hs ▸ hup
    have hpol : d.occasion.policy s.settings = s.settings.onInterval := by
      rw [ho]
      rfl
    refine .bind (Maintenance.check_conducted hpol hc hd.undecided hprompt) ?_
    rintro plan u ⟨hu, huo, hback⟩
    have hua : u.Awake s.settings := by
      rw [hu.rest]
      exact ⟨⟨⟨hd.joined, hd.rising, hd.undecided⟩, hd.timed, hd.phase⟩, hd.looked, hd.delayed⟩
    have hup : u.Prompted := by
      rw [hu.rest]
      exact fun _ => hs ▸ hup
    split
    · next hany => exact installThenRestart_conducted m hua hback hany (huo.trans ho) hup
    · exact ended ⟨hua, hm⟩
  · exact ended ⟨hd, hm⟩

/-- What a wake does about the health of the server. -/
theorem followHealth_conducted (m : Memory) {signals : Signals} (hd : d.Awake s.settings)
    (hm : m.held.isSome = true) :
    noted.Upholds (conduct s.settings) (s.followHealth m signals) d
      (Diary.Stepped s.settings (Diary.Waiting s.settings)) := by
  unfold followHealth
  split
  · exact checkHealth_conducted m hd hm
  · exact ended ⟨hd.toWaiting, hm⟩

/-- **One wake.** -/
theorem handleWake_conducted (m : Memory) (signals : Signals) (hd : d.Waiting s.settings)
    (hm : m.held.isSome = true) :
    noted.Upholds (conduct s.settings) (s.handleWake m signals) (d.wake signals)
      (Diary.Stepped s.settings (Diary.Waiting s.settings)) := by
  unfold handleWake
  cases hstop : signals.stop with
  | true =>
    have hnotes : (d.wake signals).notes = d.notes ++ [.stopTold] := by simp [Diary.wake, hstop]
    have htold : verdicts s.settings (d.wake signals).notes = [.success] :=
      hnotes ▸ hd.undecided.decided rfl
    refine passed (fun _ => rfl) trivial fun _ => passed (fun _ => rfl) trivial fun _ => ?_
    refine asked trivial fun _ => ?_
    rw [Diary.add_setPhase_stop]
    refine .bind (s.keeper.stop_conducted _ _ (Bool.and_false _) hd.rising) ?_
    rintro - u ⟨delayed, rfl⟩
    have hphase : TimerPhase.stop ≠ .run := by decide
    exact ended ⟨hd.joined, hd.rising, hd.timed, hphase, htold, by decide⟩
  | false =>
    have hnotes : (d.wake signals).notes = d.notes := by simp [Diary.wake, hstop]
    have hd' : (d.wake signals).Awake s.settings :=
      ⟨⟨⟨hd.joined, hd.rising, (congrArg _ hnotes).trans hd.undecided⟩, hd.timed, hd.phase⟩,
        rfl, rfl⟩
    refine .bind (followUpdates_conducted m hd' hm rfl rfl rfl) ?_
    rintro ⟨m', exit⟩ u hu
    cases exit with
    | some code => exact ended hu
    | none => exact followHealth_conducted m' hu.1 hu.2

/-- **One turn.** -/
theorem turn_conducted (m : Memory) (hd : d.Waiting s.settings) (hm : m.held.isSome = true) :
    noted.Upholds (conduct s.settings) (s.turn m) d
      (Upholds.Turn (fun m u => u.Waiting s.settings ∧ m.held.isSome = true)
        fun r u => u.Leaving s.settings r.2) := by
  refine asked hd.ticking fun signals => .bind (handleWake_conducted m signals hd hm) ?_
  rintro ⟨m', exit⟩ u hu
  cases exit with
  | none => exact ended hu
  | some code => exact ended hu

/-- The timer is joined in its last phase. -/
theorem joinTimer_conducted (code : ExitCode) (hd : d.Leaving s.settings code)
    (hp : d.phase = .stop) :
    noted.Upholds (conduct s.settings) (joinTimer code) d fun code' u =>
      u.Concluded s.settings code' ∧ u.phase = .stop ∧ u.rising = none := by
  refine asked hp fun ended' => ?_
  cases ended' with
  | true =>
    exact ended ⟨⟨fun _ => hd.verdicts, fun hc => absurd hc hd.started⟩, hp, hd.rising⟩
  | false =>
    refine passed (fun _ => rfl) trivial fun _ =>
      ended ⟨⟨fun hj => absurd rfl hj, ?_⟩, hp, hd.rising⟩
    intro hc
    split at hc
    · exact nomatch hc
    · exact absurd hc hd.started

/-- A server that still runs is brought down. -/
theorem stopRunning_conducted (held : Option Handle) (reason : String)
    (hd : d.ticking = false) (hn : d.rising = none) :
    noted.Upholds (conduct s.settings) (s.stopRunning held reason) d fun _ u =>
      ∃ delayed, u = { d with delayed } := by
  cases held with
  | none => exact ended ⟨d.delayed, rfl⟩
  | some h =>
    refine asked trivial fun up => ?_
    rw [Diary.add_isRunning_of_resting hd, Diary.watch_of_not_rising hn]
    cases up with
    | true =>
      refine passed (fun _ => rfl) trivial fun _ => .bind (s.keeper.stop_conducted _ _ hd hn) ?_
      exact fun _ u hu => ended hu
    | false => exact ended ⟨d.delayed, rfl⟩

/-- **The end of a session** changes its exit code only if the timer failed. -/
theorem tearDown_conducted (m : Memory) (code : ExitCode) (hd : d.Leaving s.settings code) :
    noted.Upholds (conduct s.settings) (s.tearDown m code) d
      fun code' u => u.Concluded s.settings code' := by
  have hd' : ({ d with phase := .stop, looked := false } : Diary).Leaving s.settings code :=
    ⟨hd.joined, hd.rising, hd.timed, nofun, hd.verdicts, hd.started⟩
  refine passed (fun _ => rfl) trivial fun _ => asked trivial fun _ => ?_
  rw [Diary.add_setPhase_stop]
  refine .bind (joinTimer_conducted code hd' rfl) ?_
  rintro code' u ⟨hu, hp, hr⟩
  have hresting : u.ticking = false := by simp [Diary.ticking, hp]
  refine passed (fun _ => rfl) trivial fun _ => .bind (stopRunning_conducted _ _ hresting hr) ?_
  rintro held v ⟨delayed, rfl⟩
  have hv : ({ u with delayed } : Diary).Concluded s.settings code' := ⟨hu.verdicts, hu.unstarted⟩
  refine passed (fun _ => rfl) trivial fun _ => ?_
  cases held with
  | none => exact ended hv
  | some h => exact passed (fun _ => rfl) trivial fun _ => ended hv

/-- What follows the first start. -/
theorem supervise_conducted (up : Bool) (held : Option Handle) (hh : held.isSome = up)
    (hd : d.Open s.settings) (hp : d.phase = .run) (ht : d.timed = false)
    (ho : d.occasion = .startup) :
    noted.Upholds (conduct s.settings) (s.supervise up held) (d.started up)
      fun code u => u.Concluded s.settings code := by
  cases up with
  | false =>
    refine passed (fun _ => rfl) trivial fun _ => ended ⟨fun _ => ?_, fun _ => ht⟩
    exact hd.undecided.decided (by rw [ho]; rfl)
  | true =>
    refine passed (fun _ => rfl) trivial fun _ => asked rfl fun _ => ?_
    refine passed (fun _ => rfl) trivial fun _ => .bind (M := fun r u => u.Leaving s.settings r.2)
      (.iterate (fun m u => u.Waiting s.settings ∧ m.held.isSome = true) ?_ ?_) ?_
    · rintro m u ⟨hu, hm⟩
      refine (turn_conducted m hu hm).mono fun next v hv => ?_
      cases next with
      | inl m' => exact hv
      | inr r => exact ended hv
    · exact ⟨⟨⟨hd.joined, rfl, hd.undecided.append rfl⟩, rfl, hp⟩, hh⟩
    · exact fun r u hu => tearDown_conducted r.1 r.2 hu

/-- **A whole session** asks for nothing but what its diary admits, and ends as its diary says. -/
theorem run_conducted (s : Supervisor) :
    noted.Upholds (conduct s.settings) s.run .blank
      fun code u => u.Concluded s.settings code := by
  have hready : Maintenance.Installable s.settings .blank := ⟨rfl, rfl, nofun⟩
  refine .bind (Maintenance.check_conducted rfl rfl rfl nofun) ?_
  rintro plan u ⟨hu, huo, hback⟩
  refine .bind (installPending_conducted (hready.passing hu) hback (by rw [huo]; rfl)) ?_
  rintro - v ⟨hv, hvo⟩
  have hpass : Diary.Passing .blank v := hu.trans hv
  have hopen : v.Open s.settings :=
    Diary.Open.passing (d := .blank) ⟨rfl, rfl, rfl⟩ hpass
  have hrest := hpass.rest
  have hresting : v.ticking = false := by rw [hrest]; rfl
  refine passed (fun _ => rfl) trivial fun _ =>
    .bind (s.keeper.start_conducted hresting hopen.undecided hopen.rising) ?_
  rintro ⟨up, held⟩ w ⟨rfl, hheld⟩
  refine .bind (supervise_conducted up held hheld hopen ?_ ?_ (hvo.trans huo)) ?_
  · rw [hrest]
    rfl
  · rw [hrest]
    rfl
  · exact fun code w hw => passed (fun _ => rfl) trivial fun _ => ended hw

/-- **A whole session, in any surroundings**, with the diary that its history makes. -/
theorem run_recorded {σ : Type u} (E : Surroundings σ) (s : Supervisor) (start : σ) :
    E.recorded.Upholds ((conduct s.settings).comap fun t => diary t.2) s.run (start, [])
      fun code t => (diary t.2).Concluded s.settings code := by
  have answers {β : Type} {r : Request β} {t t' : σ × List Exchange} {b : β}
      (ha : E.recorded.answers r t b t') : noted.answers r (diary t.2) b (diary t'.2) :=
    (congrArg diary ha.2).trans (diary_append t.2 ⟨r, b⟩)
  have moves {t t' : σ × List Exchange} (hm : E.recorded.moves t t') : diary t'.2 = diary t.2 :=
    congrArg diary hm.2
  exact .comap (fun t : σ × List Exchange => diary t.2) answers moves s.run_conducted

end Supervisor
end ServerWarden
