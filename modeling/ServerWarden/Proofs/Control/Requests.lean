/-
# What the parts of a session may ask for

A bound on the requests of each part of the control programs, whatever the part is answered.  Most
properties of a session need no more of most of its parts: a part that only looks around changes no
process, and a check installs nothing.
-/
import ServerWarden.Control.Session
import ServerWarden.Proofs.Control.Surroundings

namespace ServerWarden

namespace Request

/-- Requests that look around, pass time or talk, the console command to quit apart. -/
def Observes : ⦃β : Type⦄ → Request β → Prop
  | _, .clock => True
  | _, .deadline _ => True
  | _, .sleep _ => True
  | _, .say .. => True
  | _, .isRunning _ => True
  | _, .canInterrupt _ => True
  | _, .exitCode _ => True
  | _, .processId _ => True
  | _, .isConnected => True
  | _, .command text _ => text ≠ Keeper.quitCommand
  | _, _ => False

/-- Requests that ask the gateway for newer versions, or talk. -/
def Checks : ⦃β : Type⦄ → Request β → Prop
  | _, .say .. => True
  | _, .checkServer => True
  | _, .checkFramework => True
  | _, _ => False

/-- Requests that install something. -/
def Installs : ⦃β : Type⦄ → Request β → Prop
  | _, .updateServer => True
  | _, .updateFramework _ => True
  | _, _ => False

/-- Requests that start a process. -/
def Spawns : ⦃β : Type⦄ → Request β → Prop
  | _, .spawn _ => True
  | _, _ => False

/-- Requests by which a server is brought down. -/
def Lowers : ⦃β : Type⦄ → Request β → Prop
  | _, .sleep _ => True
  | _, .say .. => True
  | _, .isRunning _ => True
  | _, .canInterrupt _ => True
  | _, .interrupt _ => True
  | _, .terminate _ => True
  | _, .exitCode _ => True
  | _, .processId _ => True
  | _, .release _ => True
  | _, .isConnected => True
  | _, .command text _ => text = Keeper.quitCommand
  | _, _ => False

/-- Requests that wait for signals and take them. -/
def TakesSignals : ⦃β : Type⦄ → Request β → Prop
  | _, .waitForSignals => True
  | _, _ => False

/-- Requests that neither start a process nor install anything. -/
def Harmless ⦃β : Type⦄ (r : Request β) : Prop := ¬ r.Spawns ∧ ¬ r.Installs

/-- Requests that a stop may make: it looks around, and brings a server down. -/
def Tends ⦃β : Type⦄ (r : Request β) : Prop := r.Observes ∨ r.Lowers

theorem Observes.harmless {β : Type} {r : Request β} (h : r.Observes) : r.Harmless := by
  cases r <;> first | exact absurd h id | exact ⟨id, id⟩

theorem Checks.harmless {β : Type} {r : Request β} (h : r.Checks) : r.Harmless := by
  cases r <;> first | exact absurd h id | exact ⟨id, id⟩

theorem Lowers.harmless {β : Type} {r : Request β} (h : r.Lowers) : r.Harmless := by
  cases r <;> first | exact absurd h id | exact ⟨id, id⟩

/-- Requests that leave processes, installs and signals alone. -/
def Quiet ⦃β : Type⦄ (r : Request β) : Prop := r.Harmless ∧ ¬ r.TakesSignals

theorem Observes.quiet {β : Type} {r : Request β} (h : r.Observes) : r.Quiet := by
  cases r <;> first | exact absurd h id | exact ⟨⟨id, id⟩, id⟩

theorem Lowers.quiet {β : Type} {r : Request β} (h : r.Lowers) : r.Quiet := by
  cases r <;> first | exact absurd h id | exact ⟨⟨id, id⟩, id⟩

theorem Checks.quiet {β : Type} {r : Request β} (h : r.Checks) : r.Quiet := by
  cases r <;> first | exact absurd h id | exact ⟨⟨id, id⟩, id⟩

end Request

/-! ## 1. The keeper -/

namespace Keeper

open Program

@[simp] theorem asks_info {A : ⦃β : Type⦄ → Request β → Prop} {α : Type} {text : String}
    {f : Unit → Program α} :
    (info text >>= f).Asks A ↔ A (.say .info .server text) ∧ ∀ u, (f u).Asks A := Iff.rfl

@[simp] theorem asks_warn {A : ⦃β : Type⦄ → Request β → Prop} {α : Type} {text : String}
    {f : Unit → Program α} :
    (warn text >>= f).Asks A ↔ A (.say .warn .server text) ∧ ∀ u, (f u).Asks A := Iff.rfl

/-- An announcement is no short command. -/
theorem command_ne_of_length {text : String} (h : text.length < 20) (remaining : Duration)
    (reason : String) : Announcement.command remaining reason ≠ text := by
  intro heq
  have h20 : ("say *** Shutdown in ").length = 20 := by decide
  have hlong : 20 ≤ (Announcement.command remaining reason).length := by
    show 20 ≤ ("say *** Shutdown in " ++ _ ++ _ ++ _).length
    rw [String.length_append, String.length_append, String.length_append, h20]
    omega
  rw [heq] at hlong
  omega

theorem command_ne_quit (remaining : Duration) (reason : String) :
    Announcement.command remaining reason ≠ quitCommand :=
  command_ne_of_length (by decide) remaining reason

section

variable {A : ⦃β : Type⦄ → Request β → Prop}

theorem isRunning_asks (hrun : ∀ h, A (.isRunning h)) (held : Option Handle) :
    (isRunning held).Asks A := by
  cases held with
  | none => exact asks_pure _
  | some h => exact asks_request.2 (hrun h)

theorem query_asks (hrun : ∀ h, A (.isRunning h))
    (hcommand : ∀ text timeout, text ≠ quitCommand → A (.command text timeout))
    (held : Option Handle) : (query held).Asks A := by
  refine asks_bind (isRunning_asks hrun held) fun up => ?_
  split
  · exact asks_map (asks_request.2 (hcommand _ _ (by decide)))
  · exact asks_pure _

/-- A round looks at the clock and at the server, talks to the players, and sleeps. -/
theorem holdBackRound_asks (hclock : A .clock) (hsleep : ∀ d, A (.sleep d))
    (hsay : ∀ level speaker text, A (.say level speaker text)) (hrun : ∀ h, A (.isRunning h))
    (hcommand : ∀ text timeout, text ≠ quitCommand → A (.command text timeout))
    (held : Option Handle) (reason : String) (deadline : Instant) :
    (holdBackRound held reason deadline).Asks A := by
  refine asks_request_bind.2 ⟨hclock, fun now => ?_⟩
  split
  · exact asks_pure _
  refine asks_bind (isRunning_asks hrun held) fun up => ?_
  split
  · exact asks_pure _
  refine asks_bind (query_asks hrun hcommand held) fun report => ?_
  split
  · exact asks_warn.2 ⟨hsay _ _ _, fun _ => asks_pure _⟩
  · split
    · exact asks_info.2 ⟨hsay _ _ _, fun _ => asks_pure _⟩
    · refine asks_request_bind.2 ⟨hclock, fun now => ?_⟩
      dsimp only
      split
      · exact asks_pure _
      · refine asks_request_bind.2 ⟨hcommand _ _ (command_ne_quit _ _), fun _ => ?_⟩
        exact asks_request_bind.2 ⟨hsleep _, fun _ => asks_pure _⟩

end

theorem isRunning_observes (held : Option Handle) : (isRunning held).Asks Request.Observes :=
  isRunning_asks (fun _ => trivial) held

theorem query_observes (held : Option Handle) : (query held).Asks Request.Observes :=
  query_asks (fun _ => trivial) (fun _ _ => id) held

theorem holdBackRound_observes (held : Option Handle) (reason : String) (deadline : Instant) :
    (holdBackRound held reason deadline).Asks Request.Observes :=
  holdBackRound_asks trivial (fun _ => trivial) (fun _ _ _ => trivial) (fun _ => trivial)
    (fun _ _ => id) held reason deadline

theorem holdBack_observes (k : Keeper) (held : Option Handle) (reason : String) :
    (k.holdBack held reason).Asks Request.Observes := by
  unfold holdBack
  split
  · exact asks_pure _
  refine asks_request_bind.2 ⟨trivial, fun up => ?_⟩
  split
  · exact asks_request.2 trivial
  · refine asks_info.2 ⟨trivial, fun _ => asks_request_bind.2 ⟨trivial, fun deadline => ?_⟩⟩
    exact asks_loop fun _ => holdBackRound_observes held reason deadline

section

variable {A : ⦃β : Type⦄ → Request β → Prop}

theorem awaitExit_asks (hrun : ∀ h, A (.isRunning h)) (hsleep : ∀ d, A (.sleep d))
    (held : Option Handle) (interval : Duration) (attempts : Nat) :
    (awaitExit held interval attempts).Asks A := by
  induction attempts with
  | zero => exact asks_map (isRunning_asks hrun held)
  | succ attempts ih =>
    refine asks_bind (isRunning_asks hrun held) fun up => ?_
    split
    · exact asks_pure _
    · exact asks_request_bind.2 ⟨hsleep _, fun _ => ih⟩

/-- The wait after a resort, and the word about its success. -/
theorem wait_asks (hsay : ∀ level speaker text, A (.say level speaker text))
    (hrun : ∀ h, A (.isRunning h)) (hsleep : ∀ d, A (.sleep d)) (held : Option Handle)
    (interval : Duration) (attempts : Nat) (text : String) :
    (do if ← awaitExit held interval attempts then info text : Program Unit).Asks A := by
  refine asks_bind (awaitExit_asks hrun hsleep held interval attempts) fun exited => ?_
  split
  · exact asks_request.2 (hsay _ _ _)
  · exact asks_pure _

theorem askToQuit_asks (hsay : ∀ level speaker text, A (.say level speaker text))
    (hrun : ∀ h, A (.isRunning h)) (hsleep : ∀ d, A (.sleep d)) (hconnected : A .isConnected)
    (hquit : A (.command quitCommand commandTimeout)) (k : Keeper) (h : Handle) :
    (k.askToQuit h).Asks A := by
  unfold askToQuit
  refine asks_request_bind.2 ⟨hrun h, fun up => ?_⟩
  split
  · refine asks_request_bind.2 ⟨hconnected, fun connected => ?_⟩
    split
    · refine asks_info.2 ⟨hsay _ _ _, fun _ => asks_request_bind.2 ⟨hquit, fun _ => ?_⟩⟩
      exact wait_asks hsay hrun hsleep _ _ _ _
    · exact asks_request.2 (hsay _ _ _)
  · exact asks_pure _

theorem terminate_asks (hsay : ∀ level speaker text, A (.say level speaker text))
    (hrun : ∀ h, A (.isRunning h)) (hterminate : ∀ h, A (.terminate h))
    (hid : ∀ h, A (.processId h)) (h : Handle) : (terminate h).Asks A := by
  unfold terminate
  refine asks_request_bind.2 ⟨hrun h, fun up => ?_⟩
  split
  · refine asks_warn.2 ⟨hsay _ _ _, fun _ => asks_request_bind.2 ⟨hterminate h, fun result => ?_⟩⟩
    cases result with
    | ok u => exact asks_pure _
    | error e => exact asks_request_bind.2 ⟨hid h, fun _ => asks_request.2 (hsay _ _ _)⟩
  · exact asks_pure _

end

theorem askToQuit_lowers (k : Keeper) (h : Handle) : (k.askToQuit h).Asks Request.Lowers :=
  askToQuit_asks (fun _ _ _ => trivial) (fun _ => trivial) (fun _ => trivial) trivial rfl k h

theorem interrupt_lowers (k : Keeper) (h : Handle) : (k.interrupt h).Asks Request.Lowers := by
  unfold interrupt
  refine asks_request_bind.2 ⟨trivial, fun up => ?_⟩
  split
  · refine asks_request_bind.2 ⟨trivial, fun possible => ?_⟩
    split
    · refine asks_warn.2 ⟨trivial, fun _ => asks_request_bind.2 ⟨trivial, fun result => ?_⟩⟩
      cases result with
      | error e => exact asks_request.2 trivial
      | ok u =>
        exact wait_asks (fun _ _ _ => trivial) (fun _ => trivial) (fun _ => trivial) _ _ _ _
    · exact asks_pure _
  · exact asks_pure _

theorem terminate_lowers (h : Handle) : (terminate h).Asks Request.Lowers :=
  terminate_asks (fun _ _ _ => trivial) (fun _ => trivial) (fun _ => trivial) (fun _ => trivial) h

theorem askToQuit_harmless (k : Keeper) (h : Handle) : (k.askToQuit h).Asks Request.Harmless :=
  (askToQuit_lowers k h).mono fun _ => Request.Lowers.harmless

theorem interrupt_harmless (k : Keeper) (h : Handle) : (k.interrupt h).Asks Request.Harmless :=
  (interrupt_lowers k h).mono fun _ => Request.Lowers.harmless

theorem reportExit_asks {A : ⦃β : Type⦄ → Request β → Prop} {h : Handle} (he : A (.exitCode h))
    (ht : ∀ level speaker text, A (.say level speaker text)) : (reportExit h).Asks A := by
  refine asks_request_bind.2 ⟨he, fun code => ?_⟩
  split <;> exact asks_request.2 (ht _ _ _)

theorem reportExit_observes (h : Handle) : (reportExit h).Asks Request.Observes :=
  reportExit_asks trivial fun _ _ _ => trivial

theorem reportExit_lowers (h : Handle) : (reportExit h).Asks Request.Lowers :=
  reportExit_asks trivial fun _ _ _ => trivial

theorem release_asks {A : ⦃β : Type⦄ → Request β → Prop} (hA : ∀ h, A (.release h))
    (held : Option Handle) : (release held).Asks A := by
  cases held with
  | none => exact asks_pure _
  | some h => exact asks_request.2 (hA h)

/-- A stop holds the shutdown back, and brings the server down. -/
theorem stop_asks {A : ⦃β : Type⦄ → Request β → Prop} (k : Keeper)
    (hlowers : ∀ {β : Type} (r : Request β), r.Lowers → A r)
    (hold : ∀ held reason, (k.holdBack held reason).Asks A) (held : Option Handle)
    (reason : String) : (k.stop held reason).Asks A := by
  cases held with
  | none => exact asks_pure _
  | some h =>
    refine asks_request_bind.2 ⟨hlowers _ trivial, fun up => ?_⟩
    split
    · exact asks_request.2 (hlowers _ trivial)
    · have lowers {α : Type} {p : Program α} (hp : p.Asks Request.Lowers) : p.Asks A :=
        hp.mono fun r => hlowers r
      refine asks_info.2 ⟨hlowers _ trivial, fun _ => ?_⟩
      refine asks_bind (hold _ _) fun _ => ?_
      refine asks_bind (lowers (askToQuit_lowers k h)) fun _ => ?_
      refine asks_bind (lowers (interrupt_lowers k h)) fun _ => ?_
      refine asks_bind (lowers (terminate_lowers h)) fun _ => ?_
      refine asks_bind (lowers (reportExit_lowers h)) fun _ => ?_
      exact asks_request.2 (hlowers _ trivial)

theorem stop_tends (k : Keeper) (held : Option Handle) (reason : String) :
    (k.stop held reason).Asks Request.Tends :=
  k.stop_asks (fun _ => Or.inr) (fun _ _ => (holdBack_observes _ _ _).mono fun _ => Or.inl) held
    reason

theorem stop_quiet (k : Keeper) (held : Option Handle) (reason : String) :
    (k.stop held reason).Asks Request.Quiet :=
  (k.stop_tends held reason).mono fun _ hr => hr.elim Request.Observes.quiet Request.Lowers.quiet

theorem awaitStart_asks {A : ⦃β : Type⦄ → Request β → Prop} (hrun : ∀ h, A (.isRunning h))
    (hsleep : ∀ d, A (.sleep d)) (h : Handle) (interval : Duration) (attempts : Nat) :
    (awaitStart h interval attempts).Asks A := by
  induction attempts with
  | zero => exact asks_pure _
  | succ attempts ih =>
    refine asks_request_bind.2 ⟨hrun h, fun up => ?_⟩
    split
    · exact asks_pure _
    · refine asks_bind ?_ fun _ => ih
      unfold pause
      split
      · exact asks_pure _
      · exact asks_request.2 (hsleep _)

theorem discard_asks {A : ⦃β : Type⦄ → Request β → Prop}
    (hsay : ∀ level speaker text, A (.say level speaker text))
    (hterminate : ∀ h, A (.terminate h)) (hrelease : ∀ h, A (.release h)) (h : Handle) :
    (discard h).Asks A := by
  refine asks_request_bind.2 ⟨hterminate h, fun result => ?_⟩
  refine asks_bind ?_ fun _ => asks_request.2 (hrelease h)
  cases result with
  | ok u => exact asks_pure _
  | error e => exact asks_request.2 (hsay _ _ _)

/-- A start looks around, starts a process, and may bring it down again. -/
theorem start_asks {A : ⦃β : Type⦄ → Request β → Prop} (k : Keeper)
    (hsay : ∀ level speaker text, A (.say level speaker text)) (hspawn : A (.spawn k.launch))
    (hrun : ∀ h, A (.isRunning h)) (hsleep : ∀ d, A (.sleep d)) (hid : ∀ h, A (.processId h))
    (hterminate : ∀ h, A (.terminate h)) (hrelease : ∀ h, A (.release h))
    (held : Option Handle) : (k.start held).Asks A := by
  refine asks_bind (isRunning_asks hrun held) fun up => ?_
  split
  · exact asks_pure _
  · refine asks_info.2 ⟨hsay _ _ _, fun _ => asks_request_bind.2 ⟨hspawn, fun result => ?_⟩⟩
    cases result with
    | error e => exact asks_request_bind.2 ⟨hsay _ _ _, fun _ => asks_pure _⟩
    | ok h =>
      refine asks_bind (awaitStart_asks hrun hsleep _ _ _) fun up => ?_
      split
      · refine asks_request_bind.2 ⟨hid h, fun _ => asks_info.2 ⟨hsay _ _ _, fun _ => ?_⟩⟩
        exact asks_bind (release_asks hrelease held) fun _ => asks_pure _
      · refine asks_request_bind.2 ⟨hsay _ _ _, fun _ => ?_⟩
        exact asks_bind (discard_asks hsay hterminate hrelease h) fun _ => asks_pure _

theorem start_not_takes (k : Keeper) (held : Option Handle) :
    (k.start held).Asks fun _ r => ¬ r.TakesSignals :=
  k.start_asks (fun _ _ _ => id) id (fun _ => id) (fun _ => id) (fun _ => id) (fun _ => id)
    (fun _ => id) held

end Keeper

/-! ## 2. Maintenance -/

namespace Maintenance

open Program

theorem checkIf_checks {r : Request Bool} (hr : Request.Checks r) (wanted : Bool)
    (text : String) : (checkIf wanted text r).Asks Request.Checks := by
  unfold checkIf
  split
  · exact asks_request_bind.2 ⟨trivial, fun _ => asks_request.2 hr⟩
  · exact asks_pure _

theorem check_checks (policy : UpdatePolicy) (together : Bool) :
    (check policy together).Asks Request.Checks :=
  asks_bind (checkIf_checks (r := .checkServer) trivial _ _) fun _ =>
    asks_bind (checkIf_checks (r := .checkFramework) trivial _ _) fun _ => asks_pure _

variable {A : ⦃β : Type⦄ → Request β → Prop}

/-- What an install may ask for: talk, waits, and the two requests of its artifact. -/
theorem install_asks {a : Artifact} (retry : RetryPolicy) (hi : A a.install) (hc : A a.check)
    (hs : ∀ d, A (.sleep d)) (ht : ∀ level speaker text, A (.say level speaker text)) :
    (install a retry).Asks A := by
  refine asks_request_bind.2 ⟨ht _ _ _, fun _ => asks_loop fun before => ?_⟩
  refine asks_request_bind.2 ⟨hi, fun _ => asks_request_bind.2 ⟨hc, fun newer => ?_⟩⟩
  split
  · exact asks_request_bind.2 ⟨ht _ _ _, fun _ => asks_pure _⟩
  · split
    · exact asks_request_bind.2 ⟨ht _ _ _, fun _ => asks_pure _⟩
    · refine asks_request_bind.2 ⟨ht _ _ _, fun _ => ?_⟩
      exact asks_request_bind.2 ⟨hs _, fun _ => asks_pure _⟩

theorem installIf_asks (wanted : Bool) {a : Artifact} (retry : RetryPolicy) (hi : A a.install)
    (hc : A a.check) (hs : ∀ d, A (.sleep d))
    (ht : ∀ level speaker text, A (.say level speaker text)) :
    (installIf wanted a retry).Asks A := by
  unfold installIf
  split
  · exact asks_bind (install_asks retry hi hc hs ht) fun _ => asks_pure _
  · exact asks_pure _

theorem installAll_not_spawns (plan : UpdatePlan) (serverRetry frameworkRetry : RetryPolicy) :
    (installAll plan serverRetry frameworkRetry).Asks fun _ r => ¬ r.Spawns :=
  asks_bind (installIf_asks _ _ id id (fun _ => id) fun _ _ _ => id) fun _ =>
    installIf_asks _ _ id id (fun _ => id) fun _ _ _ => id

theorem installAll_not_takes (plan : UpdatePlan) (serverRetry frameworkRetry : RetryPolicy) :
    (installAll plan serverRetry frameworkRetry).Asks fun _ r => ¬ r.TakesSignals :=
  asks_bind (installIf_asks _ _ id id (fun _ => id) fun _ _ _ => id) fun _ =>
    installIf_asks _ _ id id (fun _ => id) fun _ _ _ => id

end Maintenance

/-! ## 3. The session -/

namespace Supervisor

open Program

theorem check_harmless (s : Supervisor) (policy : UpdatePolicy) :
    (s.check policy).Asks Request.Harmless :=
  (Maintenance.check_checks policy _).mono fun _ => Request.Checks.harmless

theorem installPending_asks {A : ⦃β : Type⦄ → Request β → Prop} (s : Supervisor)
    (plan : UpdatePlan) (h : (s.installAll plan).Asks A) : (s.installPending plan).Asks A := by
  unfold installPending
  split
  · exact h
  · exact asks_pure _

theorem installPending_not_spawns (s : Supervisor) (plan : UpdatePlan) :
    (s.installPending plan).Asks fun _ r => ¬ r.Spawns :=
  s.installPending_asks plan (Maintenance.installAll_not_spawns _ _ _)

theorem noteProtocol_observes (before : Option String) (now : String) :
    (noteProtocol before now).Asks Request.Observes := by
  unfold noteProtocol
  split
  · split
    · exact asks_request.2 trivial
    · exact asks_pure _
  · exact asks_pure _

theorem joinTimer_quiet (code : ExitCode) : (joinTimer code).Asks Request.Quiet := by
  refine asks_request_bind.2 ⟨⟨⟨id, id⟩, id⟩, fun ended => ?_⟩
  split
  · exact asks_pure _
  · exact asks_request_bind.2 ⟨⟨⟨id, id⟩, id⟩, fun _ => asks_pure _⟩

theorem joinTimer_harmless (code : ExitCode) : (joinTimer code).Asks Request.Harmless :=
  (joinTimer_quiet code).mono fun _ hr => hr.1

theorem check_not_takes (s : Supervisor) (policy : UpdatePolicy) :
    (s.check policy).Asks fun _ r => ¬ r.TakesSignals :=
  (Maintenance.check_checks policy _).mono fun _ hr => (Request.Checks.quiet hr).2

theorem stop_not_takes (s : Supervisor) (held : Option Handle) (reason : String) :
    (s.keeper.stop held reason).Asks fun _ r => ¬ r.TakesSignals :=
  (s.keeper.stop_quiet held reason).mono fun _ hr => hr.2

/-- What a session does once its server was started again. -/
theorem resume_not_takes {m : Memory} {up : Bool} {text : String} {code : ExitCode} :
    (if up then do
      request (.setPhase .run)
      return (m, none)
    else do
      error text
      return (m, some code) : Program Step).Asks fun _ r => ¬ r.TakesSignals := by
  cases up with
  | true => exact asks_request_bind.2 ⟨id, fun _ => asks_pure _⟩
  | false => exact asks_request_bind.2 ⟨id, fun _ => asks_pure _⟩

theorem installThenRestart_not_takes (s : Supervisor) (m : Memory) (plan : UpdatePlan) :
    (s.installThenRestart m plan).Asks fun _ r => ¬ r.TakesSignals := by
  refine asks_request_bind.2 ⟨id, fun _ => asks_request_bind.2 ⟨id, fun _ => ?_⟩⟩
  refine asks_bind (s.stop_not_takes _ _) fun _ => ?_
  refine asks_bind (Maintenance.installAll_not_takes _ _ _) fun _ => ?_
  refine asks_request_bind.2 ⟨id, fun _ => ?_⟩
  exact asks_bind (s.keeper.start_not_takes _) fun r => resume_not_takes

theorem restartCrashed_not_takes (s : Supervisor) (m : Memory) :
    (s.restartCrashed m).Asks fun _ r => ¬ r.TakesSignals := by
  unfold restartCrashed
  split
  · exact asks_request_bind.2 ⟨id, fun _ => asks_request_bind.2 ⟨id, fun _ => asks_pure _⟩⟩
  · refine asks_request_bind.2 ⟨id, fun _ => asks_request_bind.2 ⟨id, fun _ => ?_⟩⟩
    refine asks_bind (s.stop_not_takes _ _) fun _ => ?_
    refine asks_bind (s.check_not_takes _) fun plan => ?_
    refine asks_bind (s.installPending_asks plan (Maintenance.installAll_not_takes _ _ _))
      fun _ => ?_
    refine asks_request_bind.2 ⟨id, fun _ => ?_⟩
    exact asks_bind (s.keeper.start_not_takes _) fun r => resume_not_takes

theorem checkHealth_not_takes (s : Supervisor) (m : Memory) :
    (s.checkHealth m).Asks fun _ r => ¬ r.TakesSignals := by
  have looks {α : Type} {p : Program α} (hp : p.Asks Request.Observes) :
      p.Asks fun _ r => ¬ r.TakesSignals := hp.mono fun _ hr => (Request.Observes.quiet hr).2
  refine asks_bind (looks (Keeper.isRunning_observes _)) fun up => ?_
  split
  · refine asks_bind (looks (Keeper.query_observes _)) fun report => ?_
    cases report with
    | none => exact asks_pure _
    | some report =>
      refine asks_bind (asks_request_bind.2 ⟨id, fun _ => ?_⟩) fun _ => asks_pure _
      exact asks_bind (looks (noteProtocol_observes _ _)) fun _ => asks_pure _
  · exact s.restartCrashed_not_takes m

/-- What follows a wake without a stop takes no signals. -/
theorem follow_not_takes (s : Supervisor) (m : Memory) (signals : Signals) :
    (s.followUpdates m signals).Asks (fun _ r => ¬ r.TakesSignals) ∧
    (s.followHealth m signals).Asks fun _ r => ¬ r.TakesSignals := by
  unfold followUpdates followHealth checkUpdates
  constructor
  · split
    · refine asks_bind (s.check_not_takes _) fun plan => ?_
      split
      · exact s.installThenRestart_not_takes m plan
      · exact asks_pure _
    · exact asks_pure _
  · split
    · exact s.checkHealth_not_takes m
    · exact asks_pure _

/-- The end of a session leaves processes, installs and signals alone. -/
theorem tearDown_quiet (s : Supervisor) (m : Memory) (code : ExitCode) :
    (s.tearDown m code).Asks Request.Quiet := by
  have quiet : ∀ {β : Type} {r : Request β}, ¬ r.Spawns → ¬ r.Installs → ¬ r.TakesSignals →
      r.Quiet := fun h h' h'' => ⟨⟨h, h'⟩, h''⟩
  refine asks_request_bind.2 ⟨quiet id id id, fun _ => ?_⟩
  refine asks_request_bind.2 ⟨quiet id id id, fun _ => ?_⟩
  refine asks_bind (joinTimer_quiet code) fun code => ?_
  refine asks_request_bind.2 ⟨quiet id id id, fun reason => asks_bind ?_ fun held => ?_⟩
  · refine asks_bind ((Keeper.isRunning_observes _).mono fun _ => Request.Observes.quiet)
      fun up => ?_
    split
    · refine asks_request_bind.2 ⟨quiet id id id, fun _ => ?_⟩
      exact asks_bind (s.keeper.stop_quiet _ _) fun _ => asks_pure _
    · exact asks_pure _
  · refine asks_request_bind.2 ⟨quiet id id id, fun _ => ?_⟩
    exact asks_bind (Keeper.release_asks (fun _ => quiet id id id) held) fun _ => asks_pure _

end Supervisor
end ServerWarden
