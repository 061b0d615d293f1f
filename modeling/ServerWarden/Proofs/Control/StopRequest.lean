/-
# What a session still does once a stop is requested

A stop may be requested at any moment.  A session looks for it in one place only: the wait at the
start of a turn.  So the request does not cut short what is under way.  The first start, or the wake
that is being followed, is carried out to its end, with its checks, its installs and its retries,
and may start a server.  The next wait is told of the stop, and after it nothing is installed and no
process is started.

The runs are those of a session beside its coordinator, which others use at any moment; the history
begins with the first request for a stop.  Two conditions carry the proof.  `Watched.Untold` holds
from the request to the next wait: the coordinator has the stop among its signals, so that wait will
be told.  `Watched.Told` holds after it, when only requests that are `Request.Quiet` are left.
-/
import ServerWarden.Proofs.Control.Requests
import ServerWarden.Proofs.Coordinator.Accounting

namespace ServerWarden

open Surroundings

/-! ## 1. A session beside its coordinator -/

/-- A coordinator, and what a session was answered since a stop was first requested, if one was. -/
structure Watched where
  coordinator : Coordinator
  since : Option (List Exchange)

/-- The signals that a wait took. -/
def Surroundings.Exchange.taken? : Exchange → Option Signals
  | ⟨.waitForSignals, signals⟩ => some signals
  | _ => none

/-- The signals that were taken in a history, in their order. -/
def taken (history : List Exchange) : List Signals := history.filterMap Exchange.taken?

theorem taken_append_of_not_takes {β : Type} {history : List Exchange} {r : Request β} {b : β}
    (hr : ¬ r.TakesSignals) : taken (history ++ [⟨r, b⟩]) = taken history := by
  have hx : Exchange.taken? ⟨r, b⟩ = none := by
    cases r with
    | waitForSignals => exact absurd trivial hr
    | _ => rfl
  simp [taken, List.filterMap_append, hx]

theorem taken_append_wait (history : List Exchange) (signals : Signals) :
    taken (history ++ [⟨.waitForSignals, signals⟩]) = taken history ++ [signals] := by
  simp [taken, List.filterMap_append, Exchange.taken?]

namespace Watched

/-- One more answer, which left the given coordinator. -/
def note (t : Watched) (x : Exchange) (c : Coordinator) : Watched :=
  ⟨c, t.since.map (· ++ [x])⟩

/-- Someone asks for a stop. -/
def requestStop (t : Watched) : Watched :=
  ⟨t.coordinator.requestStop, some (t.since.getD [])⟩

/-- What others do to a coordinator, at any moment. -/
inductive Stirs (t : Watched) : Watched → Prop where
  | emitted (signals : Signals) :
      Stirs t { t with coordinator := (t.coordinator.emit signals).2 }
  | stopRequested : Stirs t t.requestStop
  /-- The timer takes notice of its phase, and tasks wait, are woken and give up. -/
  | tended (c : Coordinator) : c.phase = t.coordinator.phase →
      c.signals = t.coordinator.signals → Stirs t { t with coordinator := c }

end Watched

/-- **Surroundings in which only the coordinator is fixed.**  A wait takes the signals that are
there, of which there must be one.  Every other answer is possible at any time. -/
def watched : Surroundings Watched where
  answers
    | _, .setPhase p, t, u, t' => t' = t.note ⟨.setPhase p, u⟩ (t.coordinator.setPhase p)
    | _, .waitForSignals, t, signals, t' => ∃ c, t.coordinator.takeSignals? = some (signals, c) ∧
        t' = t.note ⟨.waitForSignals, signals⟩ c
    | _, r, t, b, t' => t' = t.note ⟨r, b⟩ t.coordinator
  moves := Watched.Stirs

namespace Watched

theorem stop_emit (c : Coordinator) (signals : Signals) :
    (c.emit signals).2.signals.stop = c.signals.stop := by
  by_cases hp : c.phase = .run
  · rw [Coordinator.emit_signals hp]
  · rw [Coordinator.emit_refused hp]

theorem stop_of_takeSignals? {c c' : Coordinator} {signals : Signals}
    (h : c.takeSignals? = some (signals, c')) :
    signals.stop = c.signals.stop ∧ c'.signals.stop = c.signals.stop := by
  unfold Coordinator.takeSignals? at h
  split at h
  · cases h
    exact ⟨rfl, rfl⟩
  · exact nomatch h

/-- What an answer leaves, a wait apart. -/
theorem answers_of_not_takes {β : Type} {r : Request β} {t t' : Watched} {b : β}
    (hr : ¬ r.TakesSignals) (h : watched.answers r t b t') :
    ∃ c : Coordinator, c.signals = t.coordinator.signals ∧ t' = t.note ⟨r, b⟩ c := by
  cases r with
  | waitForSignals => exact absurd trivial hr
  | setPhase p => exact ⟨_, Coordinator.setPhase_signals _ p, h⟩
  | _ => exact ⟨t.coordinator, rfl, h⟩

/-! ## 2. Before the next wait, and after it -/

/-- If a stop was requested, the coordinator has it among its signals, and the signals that were
taken since then are as `P` says. -/
def Holds (P : List Signals → Prop) (t : Watched) : Prop :=
  ∀ later, t.since = some later → t.coordinator.signals.stop = true ∧ P (taken later)

/-- No signals were taken since a stop was requested. -/
def Untold : Watched → Prop := Holds (· = [])

/-- Signals were taken at most once since a stop was requested, and told of it. -/
def Told : Watched → Prop :=
  Holds fun signals => signals = [] ∨ ∃ s, signals = [s] ∧ s.stop = true

theorem Untold.told {t : Watched} (h : t.Untold) : t.Told :=
  fun later hl => ⟨(h later hl).1, Or.inl (h later hl).2⟩

/-- What others do leaves the signals alone that a session took. -/
theorem Stirs.holds {P : List Signals → Prop} (hP : P []) {t t' : Watched} (hm : Stirs t t')
    (h : Holds P t) : Holds P t' := by
  intro later hl
  cases hm with
  | emitted signals => exact ⟨(stop_emit _ _).trans (h later hl).1, (h later hl).2⟩
  | tended c hp hs => exact ⟨(congrArg Signals.stop hs).trans (h later hl).1, (h later hl).2⟩
  | stopRequested =>
    obtain rfl : t.since.getD [] = later := Option.some.inj hl
    refine ⟨rfl, ?_⟩
    cases ht : t.since with
    | none => exact hP
    | some earlier => exact (h earlier ht).2

/-- So does every answer but that of a wait. -/
theorem Holds.answered {P : List Signals → Prop} {β : Type} {r : Request β} {t t' : Watched} {b : β}
    (h : Holds P t) (hr : ¬ r.TakesSignals) (ha : watched.answers r t b t') : Holds P t' := by
  obtain ⟨c, hc, rfl⟩ := answers_of_not_takes hr ha
  intro later hl
  obtain ⟨earlier, he, rfl⟩ := Option.map_eq_some_iff.mp hl
  obtain ⟨hstop, htaken⟩ := h earlier he
  exact ⟨(congrArg Signals.stop hc).trans hstop, (taken_append_of_not_takes hr).symm ▸ htaken⟩

/-- **A wait is told of a stop** that was requested before. -/
theorem Untold.wait {t t' : Watched} {signals : Signals} (h : t.Untold)
    (ha : watched.answers .waitForSignals t signals t') :
    t'.Told ∧ (signals.stop = false → t'.Untold) := by
  obtain ⟨c, hc, rfl⟩ := ha
  obtain ⟨hs, hc'⟩ := stop_of_takeSignals? hc
  constructor
  · intro later hl
    obtain ⟨earlier, he, rfl⟩ := Option.map_eq_some_iff.mp hl
    obtain ⟨hstop, htaken⟩ := h earlier he
    rw [taken_append_wait, htaken]
    exact ⟨hc'.trans hstop, Or.inr ⟨signals, rfl, hs.trans hstop⟩⟩
  · intro hnot later hl
    obtain ⟨earlier, he, -⟩ := Option.map_eq_some_iff.mp hl
    exact absurd (hnot.symm.trans (hs.trans (h earlier he).1)) (by decide)

/-- After a stop was requested signals are taken at most once, and then tell of it; after that
nothing is installed, no process is started, and no signals are waited for. -/
def heedful : Duty Watched where
  always := Told
  asking _ r t := r.Quiet ∨ t.Untold

def untold : Condition watched heedful where
  holds := Untold
  stable _ _ hm h := Stirs.holds (P := (· = [])) rfl hm h
  always _ h := h.told

def told : Condition watched heedful where
  holds := Told
  stable _ _ hm h := hm.holds (Or.inl rfl) h
  always _ h := h

/-- A program that waits for no signals may do anything before the next wait. -/
theorem untold_upholds {α : Type} {p : Program α} {t : Watched}
    (hp : p.Asks fun _ r => ¬ r.TakesSignals) (ht : t.Untold) :
    watched.Upholds heedful p t fun _ u => u.Untold :=
  .of_asks untold hp
    (fun _ t hr (hu : t.Untold) => ⟨Or.inr hu, fun _ _ ha => Holds.answered hu hr ha⟩) ht

/-- A quiet program may come at any time. -/
theorem told_upholds {α : Type} {p : Program α} {t : Watched} (hp : p.Asks Request.Quiet)
    (ht : t.Told) : watched.Upholds heedful p t fun _ u => u.Told :=
  .of_asks told hp
    (fun _ t hr (hu : t.Told) => ⟨Or.inl hr, fun _ _ ha => Holds.answered hu hr.2 ha⟩) ht

/-! ## 3. The session -/

/-- What holds after a wake: a session that goes on has not been told of a stop. -/
def Followed (step : Supervisor.Step) (t : Watched) : Prop :=
  t.Told ∧ (step.2 = none → t.Untold)

theorem shutDown_followed (s : Supervisor) (m : Supervisor.Memory) (reason : String) {t : Watched}
    (ht : t.Told) : watched.Upholds heedful (s.shutDown m reason) t Followed := by
  refine .bind (told_upholds (Program.asks_request.2 ⟨⟨id, id⟩, id⟩) ht) fun _ t ht => ?_
  refine .bind (told_upholds (Program.asks_request.2 ⟨⟨id, id⟩, id⟩) ht) fun _ t ht => ?_
  refine .bind (told_upholds (s.keeper.stop_quiet _ _) ht) fun _ t ht => ?_
  exact .done told ht fun _ hu => ⟨hu, nofun⟩

/-- **One wake.**  Only one that is told of a stop may come after such a wait, and it is the
last. -/
theorem handleWake_followed (s : Supervisor) (m : Supervisor.Memory) {signals : Signals}
    {t : Watched} (ht : t.Told) (hnot : signals.stop = false → t.Untold) :
    watched.Upholds heedful (s.handleWake m signals) t Followed := by
  have going {p : Program Supervisor.Step} {t : Watched}
      (hp : p.Asks fun _ r => ¬ r.TakesSignals) (ht : t.Untold) :
      watched.Upholds heedful p t Followed :=
    (untold_upholds hp ht).mono fun _ _ hu => ⟨hu.told, fun _ => hu⟩
  unfold Supervisor.handleWake
  split
  · have hp : (Program.request (.takeReason s.settings.reasonPath Supervisor.stopReason)).Asks
        Request.Quiet := Program.asks_request.2 ⟨⟨id, id⟩, id⟩
    exact .bind (told_upholds hp ht) fun reason t ht => shutDown_followed s m reason ht
  · rename_i hstop
    have hu : t.Untold := hnot (Bool.not_eq_true _ ▸ hstop)
    refine .bind (untold_upholds (s.follow_not_takes m signals).1 hu) fun step t ht => ?_
    obtain ⟨m', exit⟩ := step
    cases exit with
    | some code => exact going (Program.asks_pure _) ht
    | none => exact going (s.follow_not_takes m' signals).2 ht

/-- **One turn**: the wait, and the wake it leads to. -/
theorem turn_followed (s : Supervisor) (m : Supervisor.Memory) {t : Watched} (ht : t.Untold) :
    watched.Upholds heedful (s.turn m) t
      (Upholds.Turn (fun _ u => u.Untold) fun _ u => u.Told) := by
  refine .request untold ht (fun _ hu => Or.inr hu) fun t signals u ht ha => ?_
  obtain ⟨htold, hnot⟩ := ht.wait ha
  refine .bind (handleWake_followed s m htold hnot) fun step t ht => ?_
  obtain ⟨m', exit⟩ := step
  cases exit with
  | none => exact .done untold (ht.2 rfl) fun _ hu => hu
  | some code => exact .done told ht.1 fun _ hu => hu

/-- **A whole session.** -/
theorem run_heeds (s : Supervisor) {t : Watched} (ht : t.Untold) :
    watched.Upholds heedful s.run t fun _ u => u.Told := by
  have talk {text : String} : (Supervisor.info text).Asks fun _ r => ¬ r.TakesSignals :=
    Program.asks_request.2 id
  refine .bind (untold_upholds (s.check_not_takes _) ht) fun plan t ht => ?_
  refine .bind (untold_upholds (s.installPending_asks plan
    (Maintenance.installAll_not_takes _ _ _)) ht) fun _ t ht => ?_
  refine .bind (untold_upholds talk ht) fun _ t ht => ?_
  refine .bind (untold_upholds (s.keeper.start_not_takes _) ht) fun r t ht => ?_
  obtain ⟨up, held⟩ := r
  refine .bind (M := fun _ u => u.Told) ?_ fun code t ht =>
    told_upholds (Program.asks_request_bind.2 ⟨⟨⟨id, id⟩, id⟩, fun _ => Program.asks_pure _⟩) ht
  cases up with
  | false =>
    refine .bind (untold_upholds (Program.asks_request.2 id) ht) fun _ t ht => ?_
    exact .done untold ht fun _ hu => hu.told
  | true =>
    refine .bind (untold_upholds talk ht) fun _ t ht => ?_
    refine .bind (untold_upholds (Program.asks_request.2 id) ht) fun _ t ht => ?_
    refine .bind (untold_upholds talk ht) fun _ t ht => ?_
    refine .iterate (fun _ u => u.Untold) (fun m u hu => ?_) ht
    refine (turn_followed s m hu).mono fun step u hu => ?_
    cases step with
    | inl m => exact hu
    | inr r => exact told_upholds (s.tearDown_quiet _ _) hu

/-- **A stop request is heeded at the next wait.**  In every run of a session, with any settings,
whatever is answered and whenever a stop is requested: since then signals were taken at most once,
they told of the stop, and once they were taken nothing is installed, no process is started, and no
more signals are waited for. -/
theorem stop_heeded_at_wait (s : Supervisor) (c : Coordinator) {q : Program ExitCode} {t : Watched}
    {later : List Exchange} (h : watched.Reaches s.run ⟨c, none⟩ q t)
    (hs : t.since = some later) :
    (taken later = [] ∨ ∃ signals, taken later = [signals] ∧ signals.stop = true) ∧
    ∀ {β : Type} {r : Request β} {next : β → Program ExitCode}, q = .ask r next →
      r.Installs ∨ r.Spawns ∨ r.TakesSignals → taken later = [] := by
  have hstart : Untold ⟨c, none⟩ := fun _ hl => nomatch hl
  have hm : heedful.Met (fun _ u => u.Told) t q := run_heeds s hstart h
  refine ⟨(hm.always later hs).2, ?_⟩
  rintro β r next rfl hr
  rcases hm.2 with hq | hu
  · rcases hr with hi | hp | hw
    · exact absurd hi hq.1.2
    · exact absurd hp hq.1.1
    · exact absurd hw hq.2
  · exact (hu later hs).2

/-! ## 4. A stop during an install -/

/-- A session that installs the server before it starts it, until the install is confirmed. -/
def installing : Supervisor where
  settings := {
    autoRestart := true
    healthInterval := .ofSecs 60
    updateInterval := .zero
    onStartup := ⟨true, false⟩
    onInterval := ⟨false, false⟩
    onRelaunch := ⟨false, false⟩
    frameworkOnServerUpdate := false
    frameworkName := "None"
    serverRetry := ⟨.ofSecs 10, 0⟩
    frameworkRetry := ⟨.zero, 0⟩
    reasonPath := none }
  keeper := ⟨⟨"server", [], "."⟩, .zero, ⟨.ofSecs 2, 10⟩, ⟨.ofSecs 1, 10⟩⟩

/-- What is answered when no install is confirmed before a stop is requested. -/
def unconfirmedReply? : ⦃β : Type⦄ → Request β → Watched → Option β
  | _, .say .., _ => some ()
  | _, .sleep _, _ => some ()
  | _, .spawn _, _ => some (.ok ⟨0⟩)
  | _, .isRunning _, t => some (t.coordinator.phase = .run)
  | _, .processId _, _ => some 0
  | _, .release _, _ => some ()
  | _, .hangUp, _ => some ()
  | _, .checkServer, t => some t.since.isNone
  | _, .updateServer, _ => some ()
  | _, .startTimer .., _ => some ()
  | _, .joinTimer, _ => some true
  | _, .takeReason _ reason, _ => some reason
  | _, _, _ => none

def unconfirmed : Player watched where
  answer
    | _, .setPhase p, t => some ((), t.note ⟨.setPhase p, ()⟩ (t.coordinator.setPhase p))
    | _, .waitForSignals, t => t.coordinator.takeSignals?.map fun (signals, c) =>
      (signals, t.note ⟨.waitForSignals, signals⟩ c)
    | _, r, t => (unconfirmedReply? r t).map fun b => (b, t.note ⟨r, b⟩ t.coordinator)
  possible := by
    intro β r t t' b h
    cases r
    case setPhase p =>
      cases h
      rfl
    case waitForSignals =>
      obtain ⟨⟨signals, c⟩, hc, he⟩ := Option.map_eq_some_iff.mp h
      cases he
      exact ⟨c, hc, rfl⟩
    all_goals
      obtain ⟨b', -, he⟩ := Option.map_eq_some_iff.mp h
      cases he
      rfl

/-- The session up to the pause between two installs. -/
def pausing : Program ExitCode × Watched := unconfirmed.play 7 installing.run ⟨.initial, none⟩

/-- A number of steps later, after a stop was requested in that pause. -/
def pausedThen (n : Nat) : Program ExitCode × Watched :=
  unconfirmed.play n pausing.1 pausing.2.requestStop

theorem reaches_pausedThen (n : Nat) :
    watched.Reaches installing.run ⟨.initial, none⟩ (pausedThen n).1 (pausedThen n).2 :=
  (unconfirmed.reaches 7 installing.run ⟨.initial, none⟩).trans
    (.moved .stopRequested (unconfirmed.reaches n _ _))

/-- **A stop request is not heeded at once.**  After one in the pause between two installs, the
pause is waited for, the server is installed again, and then it is started. -/
theorem stop_not_heeded_at_once :
    (∃ next t x later, watched.Reaches installing.run ⟨.initial, none⟩ (.ask .updateServer next) t ∧
      t.since = some (x :: later)) ∧
    ∃ spec next t x later, watched.Reaches installing.run ⟨.initial, none⟩
      (.ask (.spawn spec) next) t ∧ t.since = some (x :: later) :=
  ⟨⟨_, _, _, _, reaches_pausedThen 2, rfl⟩, ⟨_, _, _, _, _, reaches_pausedThen 7, rfl⟩⟩

/-- The wait after it is told of the stop, and the session ends. -/
theorem stop_heeded_after_install : ∃ t later signals,
    watched.Reaches installing.run ⟨.initial, none⟩ (.done .success) t ∧ t.since = some later ∧
    taken later = [signals] ∧ signals.stop = true := by
  have ended : (pausedThen 27).1 = .done .success := Program.eq_done_of_result? (by decide +kernel)
  have reaches := ended ▸ reaches_pausedThen 27
  obtain ⟨later, hl⟩ : ∃ later, (pausedThen 27).2.since = some later :=
    Option.isSome_iff_exists.mp (by decide +kernel)
  have heeded := stop_heeded_at_wait installing .initial reaches hl
  rcases heeded.1 with hn | ⟨signals, ht, hs⟩
  · have hne : ((pausedThen 27).2.since.map taken) ≠ some [] := by decide +kernel
    rw [hl] at hne
    exact absurd (congrArg some hn) hne
  · exact ⟨_, later, signals, reaches, hl, ht, hs⟩

end Watched
end ServerWarden
