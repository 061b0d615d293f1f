/-
# One server at a time

A session never has two servers alive, never installs anything while one is alive, and leaves none
alive when it is over.  This holds whatever the gateway, the console and the coordinator answer, and
whenever a process exits.

The invariant is `Processes.Keeps`: between two steps of a session, what is alive is at most the
process that is kept, and that one was seen running before.  Seen running matters: a process that
was not may still be coming up when it is found not running, and only `Keeper.discard` may give it
up.  So `Keeper.start` keeps a process only after a look that found it running
(`start_upholds`), and `Keeper.stop` may rely on a look that finds it not running
(`stop_upholds`).
-/
import Mathlib.Data.Finset.Card
import ServerWarden.Proofs.Control.Requests

namespace ServerWarden

open Surroundings

/-! ## 1. Processes that may exit at any moment -/

/-- What is known of the processes that were spawned. -/
structure Processes where
  spawned : Finset Handle
  alive : Finset Handle
  /-- Those that were seen running. -/
  seen : Finset Handle

namespace Processes

def none : Processes := ⟨∅, ∅, ∅⟩

/-- Processes only exit, and none is forgotten to have been seen. -/
structure Fades (t u : Processes) : Prop where
  alive : u.alive ⊆ t.alive
  seen : t.seen ⊆ u.seen

theorem Fades.refl (t : Processes) : Fades t t := ⟨Finset.Subset.refl _, Finset.Subset.refl _⟩

/-- A process is gone. -/
def exit (t : Processes) (h : Handle) : Processes := { t with alive := t.alive.erase h }

theorem fades_exit (t : Processes) (h : Handle) : Fades t (t.exit h) :=
  ⟨Finset.erase_subset _ _, Finset.Subset.refl _⟩

/-- What a look at a process may find.  A process that is seen running is alive, and one that was
seen running before is seen running as long as it is alive. -/
def Shows (t : Processes) (h : Handle) (up : Bool) : Prop :=
  (up = true → h ∈ t.alive) ∧ (h ∈ t.seen → h ∈ t.alive → up = true)

/-- A process was looked at. -/
def note (t : Processes) (h : Handle) (up : Bool) : Processes :=
  if up then { t with seen := insert h t.seen } else t

theorem fades_note (t : Processes) (h : Handle) (up : Bool) : Fades t (t.note h up) := by
  unfold note
  split
  · exact ⟨Finset.Subset.refl _, Finset.subset_insert _ _⟩
  · exact .refl t

/-- A process was spawned. -/
def spawn (t : Processes) (h : Handle) : Processes :=
  { t with spawned := insert h t.spawned, alive := insert h t.alive }

end Processes

/-- **Surroundings in which only the processes are fixed.**  A spawned process is new and is alive
until it exits or is terminated, which always succeeds.  Every other answer is possible at any
time. -/
def processes : Surroundings Processes where
  answers
    | _, .spawn _, t, .error _, u => u = t
    | _, .spawn _, t, .ok h, u => h ∉ t.spawned ∧ u = t.spawn h
    | _, .isRunning h, t, up, u => t.Shows h up ∧ u = t.note h up
    | _, .terminate h, t, result, u => result = .ok () ∧ u = t.exit h
    | _, _, t, _, u => u = t
  moves t u := ∃ h, u = t.exit h

/-- At most one process is alive, and none when something is installed. -/
def oneServer : Duty Processes where
  always t := t.alive.card ≤ 1
  asking _ r t := r.Installs → t.alive = ∅

namespace Processes

theorem fades_of_answers {β : Type} {r : Request β} {t u : Processes} {b : β}
    (hr : ¬ r.Spawns) (h : processes.answers r t b u) : Fades t u := by
  cases r with
  | spawn spec => exact absurd trivial hr
  | isRunning g => exact h.2 ▸ fades_note t g b
  | terminate g => exact h.2 ▸ fades_exit t g
  | _ => exact (show u = t from h) ▸ .refl t

/-! ## 2. What is known between two steps -/

/-- What is alive is at most the process that is kept, which was seen running. -/
def Keeps : Option Handle → Processes → Prop
  | .none, t => t.alive = ∅
  | some h, t => t.alive ⊆ {h} ∧ h ∈ t.seen

/-- What is alive is at most one process, which may still be coming up. -/
def Raises (h : Handle) (t : Processes) : Prop := t.alive ⊆ {h}

theorem Fades.empty {t u : Processes} (h : Fades t u) (ht : t.alive = ∅) : u.alive = ∅ :=
  Finset.subset_empty.mp (ht ▸ h.alive)

theorem Fades.keeps {t u : Processes} {held : Option Handle} (h : Fades t u)
    (ht : Keeps held t) : Keeps held u := by
  cases held with
  | none => exact h.empty ht
  | some g => exact ⟨h.alive.trans ht.1, h.seen ht.2⟩

theorem Fades.raises {t u : Processes} {g : Handle} (h : Fades t u) (ht : Raises g t) :
    Raises g u := h.alive.trans ht

theorem Keeps.card_le {t : Processes} {held : Option Handle} (h : Keeps held t) :
    t.alive.card ≤ 1 := by
  cases held with
  | none => rw [show t.alive = ∅ from h]; exact Nat.zero_le 1
  | some g => exact Finset.card_le_card h.1

/-- Nothing is alive once the process that is kept is found not running. -/
theorem Keeps.empty_of_not_running {t : Processes} {h : Handle} (ht : Keeps (some h) t)
    (hs : t.Shows h false) : t.alive = ∅ := by
  have hn : h ∉ t.alive := fun ha => absurd (hs.2 ht.2 ha) (by decide)
  exact (Finset.subset_singleton_iff.mp ht.1).resolve_right fun he => hn (by simp [he])

theorem Raises.exit_empty {t : Processes} {h : Handle} (ht : Raises h t) :
    (t.exit h).alive = ∅ := by
  refine Finset.eq_empty_of_forall_notMem fun g hg => ?_
  obtain ⟨hne, ha⟩ := Finset.mem_erase.mp hg
  exact hne (Finset.mem_singleton.mp (ht ha))

/-- A condition that processes which exit do not end. -/
def fading (P : Processes → Prop) (fades : ∀ {t u}, Fades t u → P t → P u)
    (card_le : ∀ {t}, P t → t.alive.card ≤ 1) : Condition processes oneServer where
  holds := P
  stable := by
    rintro t u ⟨h, rfl⟩ ht
    exact fades (fades_exit t h) ht
  always _ := card_le

def keeping (held : Option Handle) : Condition processes oneServer :=
  fading (Keeps held) Fades.keeps Keeps.card_le

def raising (h : Handle) : Condition processes oneServer :=
  fading (Raises h) Fades.raises fun ht => Finset.card_le_card ht

/-- A program that neither starts a process nor installs anything keeps every such condition. -/
theorem upholds_of_fading {α : Type} {p : Program α} {C : Condition processes oneServer}
    {t : Processes} (fades : ∀ {t u}, Fades t u → C.holds t → C.holds u)
    (hp : p.Asks Request.Harmless) (ht : C.holds t) :
    processes.Upholds oneServer p t fun _ u => C.holds u :=
  .of_asks C hp (fun _ _ hr ht => ⟨fun hi => absurd hi hr.2,
    fun _ _ ha => fades (fades_of_answers hr.1 ha) ht⟩) ht

theorem upholds_of_harmless {α : Type} {p : Program α} {held : Option Handle} {t : Processes}
    (hp : p.Asks Request.Harmless) (ht : Keeps held t) :
    processes.Upholds oneServer p t fun _ u => Keeps held u :=
  upholds_of_fading (C := keeping held) Fades.keeps hp ht

/-- A program that starts no process may install while nothing is alive. -/
theorem upholds_of_not_spawns {α : Type} {p : Program α} {t : Processes}
    (hp : p.Asks fun _ r => ¬ r.Spawns) (ht : t.alive = ∅) :
    processes.Upholds oneServer p t fun _ u => u.alive = ∅ :=
  .of_asks (keeping .none) hp (fun _ _ hr ht => ⟨fun _ => ht,
    fun _ _ ha => (fades_of_answers hr ha).empty ht⟩) ht

/-- Talk changes nothing. -/
theorem upholds_say {level : Log.Level} {speaker : Log.Speaker} {text : String}
    {held : Option Handle} {t : Processes} (ht : Keeps held t) :
    processes.Upholds oneServer (Program.say level speaker text) t fun _ u => Keeps held u :=
  upholds_of_harmless (Program.asks_request.2 ⟨id, id⟩) ht

/-- A look at the process that is kept: running or not, it is kept, and nothing is alive if it is
found not running. -/
theorem isRunning_upholds {held : Option Handle} {t : Processes} (ht : Keeps held t) :
    processes.Upholds oneServer (Keeper.isRunning held) t
      fun up u => Keeps held u ∧ (up = false → u.alive = ∅) := by
  cases held with
  | none => exact .done (keeping .none) ht fun u hu => ⟨hu, fun _ => hu⟩
  | some h =>
    refine .ask (keeping (some h)) ht (fun _ _ hi => absurd hi id) fun t up u ht ha => ?_
    obtain ⟨hs, rfl⟩ := ha
    cases up with
    | true =>
      have hk : Keeps (some h) (t.note h true) := (fades_note t h true).keeps ht
      exact .done (keeping (some h)) hk fun _ hu => ⟨hu, fun hup => nomatch hup⟩
    | false =>
      have hk : Keeps (some h) t := ht
      have he : t.alive = ∅ := hk.empty_of_not_running hs
      let gone : Condition processes oneServer := fading
        (fun u => Keeps (some h) u ∧ u.alive = ∅)
        (fun hf hu => ⟨hf.keeps hu.1, hf.empty hu.2⟩) (fun hu => hu.1.card_le)
      exact .done gone ⟨hk, he⟩ fun _ hu => ⟨hu.1, fun _ => hu.2⟩

/-! ## 3. Starting -/

/-- A new process is either seen running, or not known to run. -/
theorem awaitStart_upholds {h : Handle} {interval : Duration} (attempts : Nat) {t : Processes}
    (ht : Raises h t) :
    processes.Upholds oneServer (Keeper.awaitStart h interval attempts) t
      fun up u => if up then Keeps (some h) u else Raises h u := by
  induction attempts generalizing t with
  | zero => exact .done (raising h) ht fun _ hu => hu
  | succ attempts ih =>
    refine .request (raising h) ht (fun _ _ hi => absurd hi id) fun t up u ht ha => ?_
    obtain ⟨-, rfl⟩ := ha
    cases up with
    | true =>
      have hk : Keeps (some h) (t.note h true) := ⟨ht, Finset.mem_insert_self _ _⟩
      exact .done (keeping (some h)) hk fun _ hu => hu
    | false =>
      have hp : (Keeper.pause interval attempts).Asks Request.Harmless := by
        unfold Keeper.pause
        split
        · exact Program.asks_pure _
        · exact Program.asks_request.2 ⟨id, id⟩
      exact .bind (upholds_of_fading (C := raising h) Fades.raises hp ht) fun _ _ hu => ih hu

/-- A process that never came up does not outlive the attempt to start it. -/
theorem discard_upholds {h : Handle} {t : Processes} (ht : Raises h t) :
    processes.Upholds oneServer (Keeper.discard h) t fun _ u => u.alive = ∅ := by
  refine .request (raising h) ht (fun _ _ hi => absurd hi id) fun t result u ht ha => ?_
  obtain ⟨-, rfl⟩ := ha
  refine upholds_of_not_spawns (Program.asks_bind ?_ fun _ => Program.asks_request.2 id)
    ht.exit_empty
  cases result with
  | ok _ => exact Program.asks_pure _
  | error e => exact Program.asks_request.2 id

/-- What holds after a start from nothing. -/
structure Started (r : Bool × Option Handle) (t : Processes) : Prop where
  keeps : Keeps r.2 t
  none_of_failed : r.1 = false → r.2 = .none

/-- **A start** from nothing ends with a process that was seen running, or with nothing alive. -/
theorem start_upholds (k : Keeper) {t : Processes} (ht : t.alive = ∅) :
    processes.Upholds oneServer (k.start .none) t Started := by
  have failed : ∀ {u : Processes}, u.alive = ∅ → Started (false, .none) u :=
    fun hu => ⟨hu, fun _ => rfl⟩
  have hk : Keeps .none t := ht
  unfold Keeper.start
  simp only [Keeper.isRunning, pure_bind, Bool.false_eq_true, if_false]
  refine .bind (upholds_say hk) fun _ t ht => ?_
  refine .request (keeping .none) ht (fun _ _ hi => absurd hi id) fun t result u ht ha => ?_
  cases result with
  | error e =>
    have hu : Keeps .none u := (show u = t from ha) ▸ ht
    exact .bind (upholds_say hu) fun _ u hu => .done (keeping .none) hu fun _ h => failed h
  | ok h =>
    obtain ⟨-, rfl⟩ := ha
    have hr : Raises h (t.spawn h) := by
      show insert h t.alive ⊆ {h}
      rw [show t.alive = ∅ from ht]
      exact Finset.Subset.refl _
    refine .bind (awaitStart_upholds _ hr) fun up u hu => ?_
    cases up with
    | true =>
      have hu : Keeps (some h) u := hu
      refine .bind (upholds_of_harmless (Program.asks_request.2 ⟨id, id⟩) hu) fun id u hu => ?_
      refine .bind (upholds_say hu) fun _ u hu => ?_
      exact .done (keeping (some h)) hu fun _ hu => ⟨hu, fun hup => nomatch hup⟩
    | false =>
      have hu : Raises h u := hu
      refine .bind (upholds_of_fading (C := raising h) Fades.raises
        (Program.asks_request.2 ⟨id, id⟩) hu) fun _ u hu => ?_
      refine .bind (discard_upholds hu) fun _ u hu => ?_
      exact .done (keeping .none) hu fun _ hu => failed hu

/-! ## 4. Stopping -/

/-- The last resort: whatever happens in it, nothing is alive afterwards. -/
theorem terminate_upholds {h : Handle} {t : Processes} (ht : Keeps (some h) t) :
    processes.Upholds oneServer (Keeper.terminate h) t fun _ u => u.alive = ∅ := by
  refine .bind (isRunning_upholds ht) fun up t ht => ?_
  obtain ⟨hk, hgone⟩ := ht
  cases up with
  | false => exact .done (keeping .none) (hgone rfl) fun _ hu => hu
  | true =>
    refine .bind (upholds_say hk) fun _ t ht => ?_
    refine .request (keeping (some h)) ht (fun _ _ hi => absurd hi id) fun t result u ht ha => ?_
    obtain ⟨rfl, rfl⟩ := ha
    have he : Raises h t := ht.1
    exact .done (keeping .none) he.exit_empty fun _ hu => hu

/-- **A stop** leaves nothing alive.  A process that is found not running was seen running before,
so it is not one that is still coming up. -/
theorem stop_upholds (k : Keeper) {held : Option Handle} (reason : String) {t : Processes}
    (ht : Keeps held t) :
    processes.Upholds oneServer (k.stop held reason) t fun _ u => u.alive = ∅ := by
  cases held with
  | none => exact .done (keeping .none) ht fun _ hu => hu
  | some h =>
    refine .bind (isRunning_upholds ht) fun up t ht => ?_
    obtain ⟨hk, hgone⟩ := ht
    cases up with
    | false => exact upholds_of_not_spawns (Program.asks_request.2 id) (hgone rfl)
    | true =>
      refine .bind (upholds_say hk) fun _ t ht => ?_
      have hb : (k.holdBack (some h) reason).Asks Request.Harmless :=
        (Keeper.holdBack_observes k (some h) reason).mono fun _ => Request.Observes.harmless
      refine .bind (upholds_of_harmless hb ht) fun _ t ht => ?_
      refine .bind (upholds_of_harmless (Keeper.askToQuit_harmless k h) ht) fun _ t ht => ?_
      refine .bind (upholds_of_harmless (Keeper.interrupt_harmless k h) ht) fun _ t ht => ?_
      refine .bind (terminate_upholds ht) fun _ t ht => ?_
      refine upholds_of_not_spawns (Program.asks_bind ?_ fun _ => Program.asks_request.2 id) ht
      exact (Keeper.reportExit_observes h).mono fun _ hr => (Request.Observes.harmless hr).1

/-! ## 5. The session -/

/-- What holds after a step of a session. -/
def Kept (step : Supervisor.Step) (t : Processes) : Prop := Keeps step.1.held t

theorem setPhase_upholds {phase : TimerPhase} {held : Option Handle} {t : Processes}
    (ht : Keeps held t) :
    processes.Upholds oneServer (Program.request (.setPhase phase)) t fun _ u => Keeps held u :=
  upholds_of_harmless (Program.asks_request.2 ⟨id, id⟩) ht

/-- What a session does once its server was started again. -/
theorem resume_upholds {m : Supervisor.Memory} {up : Bool} {text : String} {code : ExitCode}
    {t : Processes} (ht : Keeps m.held t) :
    processes.Upholds oneServer
      (if up then do
        Program.request (.setPhase .run)
        return (m, .none)
      else do
        Supervisor.error text
        return (m, some code)) t Kept := by
  cases up with
  | true => exact .bind (setPhase_upholds ht) fun _ u hu => .done (keeping m.held) hu fun _ h => h
  | false => exact .bind (upholds_say ht) fun _ u hu => .done (keeping m.held) hu fun _ h => h

theorem shutDown_upholds (s : Supervisor) {m : Supervisor.Memory} (reason : String)
    {t : Processes} (ht : Keeps m.held t) :
    processes.Upholds oneServer (s.shutDown m reason) t Kept := by
  refine .bind (upholds_say ht) fun _ t ht => ?_
  refine .bind (setPhase_upholds ht) fun _ t ht => ?_
  exact .bind (stop_upholds s.keeper reason ht) fun _ u hu =>
    .done (keeping .none) hu fun _ h => h

theorem installThenRestart_upholds (s : Supervisor) {m : Supervisor.Memory} (plan : UpdatePlan)
    {t : Processes} (ht : Keeps m.held t) :
    processes.Upholds oneServer (s.installThenRestart m plan) t Kept := by
  refine .bind (setPhase_upholds ht) fun _ t ht => ?_
  refine .bind (upholds_say ht) fun _ t ht => ?_
  refine .bind (stop_upholds s.keeper _ ht) fun _ t ht => ?_
  refine .bind (upholds_of_not_spawns (Maintenance.installAll_not_spawns _ _ _) ht)
    fun _ t (ht : Keeps .none t) => ?_
  refine .bind (upholds_say ht) fun _ t ht => ?_
  exact .bind (start_upholds s.keeper ht) fun r u hu => resume_upholds hu.keeps

theorem restartCrashed_upholds (s : Supervisor) {m : Supervisor.Memory} {t : Processes}
    (ht : Keeps m.held t) : processes.Upholds oneServer (s.restartCrashed m) t Kept := by
  unfold Supervisor.restartCrashed
  split
  · refine .bind (setPhase_upholds ht) fun _ t ht => ?_
    exact .bind (upholds_say ht) fun _ u hu => .done (keeping m.held) hu fun _ h => h
  · refine .bind (setPhase_upholds ht) fun _ t ht => ?_
    refine .bind (upholds_say ht) fun _ t ht => ?_
    refine .bind (stop_upholds s.keeper _ ht) fun _ t (ht : Keeps .none t) => ?_
    refine .bind (upholds_of_harmless (s.check_harmless _) ht) fun plan t ht => ?_
    refine .bind (upholds_of_not_spawns (s.installPending_not_spawns plan) ht)
      fun _ t (ht : Keeps .none t) => ?_
    refine .bind (upholds_say ht) fun _ t ht => ?_
    exact .bind (start_upholds s.keeper ht) fun r u hu => resume_upholds hu.keeps

theorem checkHealth_upholds (s : Supervisor) {m : Supervisor.Memory} {t : Processes}
    (ht : Keeps m.held t) : processes.Upholds oneServer (s.checkHealth m) t Kept := by
  refine .bind (isRunning_upholds ht) fun up t ht => ?_
  cases up with
  | false => exact restartCrashed_upholds s ht.1
  | true =>
    have hq : (Keeper.query m.held).Asks Request.Harmless :=
      (Keeper.query_observes m.held).mono fun _ => Request.Observes.harmless
    refine .bind (upholds_of_harmless hq ht.1) fun report t ht => ?_
    cases report with
    | none => exact .done (keeping m.held) ht fun _ h => h
    | some report =>
      refine .bind (M := fun m' t => Keeps m'.held t) ?_ fun m' t ht =>
        .done (keeping m'.held) ht fun _ h => h
      refine .bind (upholds_say ht) fun _ t ht => ?_
      have hp : (Supervisor.noteProtocol m.protocol report.protocol).Asks Request.Harmless :=
        (Supervisor.noteProtocol_observes _ _).mono fun _ => Request.Observes.harmless
      exact .bind (upholds_of_harmless hp ht) fun _ t ht => .done (keeping m.held) ht fun _ h => h

theorem followUpdates_upholds (s : Supervisor) {m : Supervisor.Memory} (signals : Signals)
    {t : Processes} (ht : Keeps m.held t) :
    processes.Upholds oneServer (s.followUpdates m signals) t Kept := by
  unfold Supervisor.followUpdates Supervisor.checkUpdates
  split
  · refine .bind (upholds_of_harmless (s.check_harmless _) ht) fun plan t ht => ?_
    split
    · exact installThenRestart_upholds s plan ht
    · exact .done (keeping m.held) ht fun _ h => h
  · exact .done (keeping m.held) ht fun _ h => h

theorem followHealth_upholds (s : Supervisor) {m : Supervisor.Memory} (signals : Signals)
    {t : Processes} (ht : Keeps m.held t) :
    processes.Upholds oneServer (s.followHealth m signals) t Kept := by
  unfold Supervisor.followHealth
  split
  · exact checkHealth_upholds s ht
  · exact .done (keeping m.held) ht fun _ h => h

/-- **One wake**, whatever signals it finds. -/
theorem handleWake_upholds (s : Supervisor) {m : Supervisor.Memory} (signals : Signals)
    {t : Processes} (ht : Keeps m.held t) :
    processes.Upholds oneServer (s.handleWake m signals) t Kept := by
  unfold Supervisor.handleWake
  split
  · refine .bind (upholds_of_harmless (Program.asks_request.2 ⟨id, id⟩) ht) fun reason t ht => ?_
    exact shutDown_upholds s reason ht
  · refine .bind (followUpdates_upholds s signals ht) fun step t ht => ?_
    obtain ⟨m', exit⟩ := step
    have hk : Keeps m'.held t := ht
    cases exit with
    | none => exact followHealth_upholds s signals hk
    | some code => exact .done (keeping m'.held) hk fun _ h => h

/-- What the main loop keeps from turn to turn, and hands over at its end. -/
theorem turn_upholds (s : Supervisor) {m : Supervisor.Memory} {t : Processes}
    (ht : Keeps m.held t) :
    processes.Upholds oneServer (s.turn m) t
      (Upholds.Turn (fun m u => Keeps m.held u) fun r u => Keeps r.1.held u) := by
  refine .bind (upholds_of_harmless (Program.asks_request.2 ⟨id, id⟩) ht) fun signals t ht => ?_
  refine .bind (handleWake_upholds s signals ht) fun step t ht => ?_
  obtain ⟨m', exit⟩ := step
  have hk : Keeps m'.held t := ht
  cases exit with
  | none => exact .done (keeping m'.held) hk fun _ h => h
  | some code => exact .done (keeping m'.held) hk fun _ h => h

/-- **The end of a session** leaves nothing alive: a server that is not brought down is one that was
found not running. -/
theorem tearDown_upholds (s : Supervisor) {m : Supervisor.Memory} (code : ExitCode)
    {t : Processes} (ht : Keeps m.held t) :
    processes.Upholds oneServer (s.tearDown m code) t fun _ u => u.alive = ∅ := by
  refine .bind (upholds_say ht) fun _ t ht => ?_
  refine .bind (setPhase_upholds ht) fun _ t ht => ?_
  refine .bind (upholds_of_harmless (Supervisor.joinTimer_harmless code) ht) fun code t ht => ?_
  refine .bind (upholds_of_harmless (Program.asks_request.2 ⟨id, id⟩) ht) fun reason t ht => ?_
  refine .bind (M := fun _ u => u.alive = ∅) ?_ fun held t ht => ?_
  · refine .bind (isRunning_upholds ht) fun up t ht => ?_
    cases up with
    | false => exact .done (keeping .none) (ht.2 rfl) fun _ hu => hu
    | true =>
      refine .bind (upholds_say ht.1) fun _ t ht => ?_
      exact .bind (stop_upholds s.keeper reason ht) fun _ t ht =>
        .done (keeping .none) ht fun _ hu => hu
  · refine upholds_of_not_spawns (Program.asks_request_bind.2 ⟨id, fun _ => ?_⟩) ht
    exact Program.asks_bind (Keeper.release_asks (fun _ => id) held) fun _ => Program.asks_pure _

theorem supervise_upholds (s : Supervisor) (up : Bool) {held : Option Handle} {t : Processes}
    (ht : Started (up, held) t) :
    processes.Upholds oneServer (s.supervise up held) t fun _ u => u.alive = ∅ := by
  cases up with
  | false =>
    have hk : Keeps .none t := ht.none_of_failed rfl ▸ ht.keeps
    exact .bind (upholds_say hk) fun _ u hu => .done (keeping .none) hu fun _ h => h
  | true =>
    refine .bind (upholds_say ht.keeps) fun _ t ht => ?_
    refine .bind (upholds_of_harmless (Program.asks_request.2 ⟨id, id⟩) ht) fun _ t ht => ?_
    refine .bind (upholds_say ht) fun _ t ht => ?_
    refine .iterate (fun m u => Keeps m.held u) (fun m u hu => ?_) ht
    refine (turn_upholds s hu).mono fun step u hu => ?_
    cases step with
    | inl m => exact hu
    | inr r => exact tearDown_upholds s r.2 hu

/-- **A whole session.** -/
theorem run_upholds (s : Supervisor) {t : Processes} (ht : t.alive = ∅) :
    processes.Upholds oneServer s.run t fun _ u => u.alive = ∅ := by
  have hk : Keeps .none t := ht
  refine .bind (upholds_of_harmless (s.check_harmless _) hk) fun plan t ht => ?_
  refine .bind (upholds_of_not_spawns (s.installPending_not_spawns plan) ht)
    fun _ t (ht : Keeps .none t) => ?_
  refine .bind (upholds_say ht) fun _ t ht => ?_
  refine .bind (start_upholds s.keeper ht) fun r t ht => ?_
  refine .bind (supervise_upholds s r.1 ht) fun code t ht => ?_
  exact upholds_of_not_spawns (Program.asks_request_bind.2 ⟨id, fun _ => Program.asks_pure _⟩) ht

/-- **One server at a time.**  In every run of a session, with any settings, whatever is answered
and whenever processes exit: at most one process is alive at any moment, none is alive when
something is installed, and none is alive when the session is over, with any exit code. -/
theorem run_one_server (s : Supervisor) {q : Program ExitCode} {t : Processes}
    (h : processes.Reaches s.run .none q t) :
    t.alive.card ≤ 1 ∧
    (∀ {β : Type} {r : Request β} {next : β → Program ExitCode},
      q = .ask r next → r.Installs → t.alive = ∅) ∧
    ∀ code, q = .done code → t.alive = ∅ := by
  have hm : oneServer.Met (fun _ u => u.alive = ∅) t q := run_upholds s rfl h
  refine ⟨hm.always, ?_, ?_⟩
  · rintro β r next rfl hi
    exact hm.2 hi
  · rintro code rfl
    exact hm.2

/-- Processes that are seen running at once and are ended by the last resort only.  A first server
is looked at; a second one is told to stop. -/
def eager : Player processes where
  answer
    | _, .clock, t => some (⟨0⟩, t)
    | _, .sleep _, t => some ((), t)
    | _, .say .., t => some ((), t)
    | _, .spawn _, t =>
      if ⟨t.spawned.card⟩ ∈ t.spawned then .none
      else some (.ok ⟨t.spawned.card⟩, t.spawn ⟨t.spawned.card⟩)
    | _, .isRunning h, t => some (decide (h ∈ t.alive), t.note h (h ∈ t.alive))
    | _, .canInterrupt _, t => some (false, t)
    | _, .terminate h, t => some (.ok (), t.exit h)
    | _, .exitCode _, t => some (.none, t)
    | _, .processId h, t => some (h.number, t)
    | _, .release _, t => some ((), t)
    | _, .isConnected, t => some (false, t)
    | _, .hangUp, t => some ((), t)
    | _, .checkServer, t => some (false, t)
    | _, .updateServer, t => some ((), t)
    | _, .setPhase _, t => some ((), t)
    | _, .waitForSignals, t => some (⟨decide (1 < t.spawned.card), true, false⟩, t)
    | _, .startTimer .., t => some ((), t)
    | _, .joinTimer, t => some (true, t)
    | _, .takeReason _ reason, t => some (reason, t)
    | _, _, _ => .none
  possible := by
    intro β r s s' b h
    cases r <;> simp only [Option.some.injEq, Prod.mk.injEq, reduceCtorEq] at h
    case spawn spec =>
      split at h
      · exact nomatch h
      · cases h
        exact ⟨‹_›, rfl⟩
    case isRunning g =>
      obtain ⟨rfl, rfl⟩ := h
      exact ⟨⟨of_decide_eq_true, fun _ => decide_eq_true⟩, rfl⟩
    case terminate g =>
      obtain ⟨rfl, rfl⟩ := h
      exact ⟨rfl, rfl⟩
    all_goals exact h.2.symm

/-- A supervisor that checks for a new server before each start, and restarts one that crashed. -/
def plain : Supervisor where
  settings := {
    autoRestart := true
    healthInterval := .ofSecs 60
    updateInterval := .zero
    onStartup := ⟨true, false⟩
    onInterval := ⟨false, false⟩
    onRelaunch := ⟨true, false⟩
    frameworkOnServerUpdate := false
    frameworkName := "None"
    serverRetry := ⟨.zero, 0⟩
    frameworkRetry := ⟨.zero, 0⟩
    reasonPath := .none }
  keeper := ⟨⟨"server", [], "."⟩, .zero, ⟨.ofSecs 2, 10⟩, ⟨.ofSecs 1, 10⟩⟩

/-- A session of `plain`, until it waits for signals. -/
def beforeCrash : Program ExitCode × Processes := eager.play 12 plain.run .none

/-- What comes after its server exits by itself. -/
def afterCrash : Program ExitCode × Processes :=
  eager.play 46 beforeCrash.1 (beforeCrash.2.exit ⟨0⟩)

/-- The first server of a session crashes, and the second is ended on request. -/
theorem run_one_server_crashed : ∃ t : Processes,
    processes.Reaches plain.run .none (.done .success) t ∧ t.spawned.card = 2 ∧ t.alive = ∅ := by
  have crash : processes.moves beforeCrash.2 (beforeCrash.2.exit ⟨0⟩) := ⟨⟨0⟩, rfl⟩
  have whole : processes.Reaches plain.run .none afterCrash.1 afterCrash.2 :=
    (eager.reaches 12 plain.run .none).trans (.moved crash (eager.reaches 46 _ _))
  have ended : afterCrash.1 = .done .success := Program.eq_done_of_result? (by decide +kernel)
  exact ⟨afterCrash.2, ended ▸ whole, by decide +kernel,
    (run_one_server plain whole).2.2 .success ended⟩

end Processes
end ServerWarden
