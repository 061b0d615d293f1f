/-
# What the exit code of a session tells

A session is over for one of four reasons: it was told of a stop, its first start failed, a start
after an update failed, or the server was found down and is not running again.  The exit code tells
which, in both directions, as long as the timer ends well (`Watched.exit_code_faithful`).  Once the
reason is there nothing is started, and the gateway is not asked any more.

That the notes of a diary lead to the exit code is known from `Supervisor.run_recorded`.  Here the
notes are traced back to the history: a stop is noted exactly if signals were taken that tell of one
(`Diary.stopTold_iff`), a relaunch that failed came after a crash (`Diary.relaunched`), and signals
tell of a stop only if one was requested (`Watched.Unasked`).
-/
import ServerWarden.Proofs.Control.PhaseDiscipline

namespace ServerWarden

open Surroundings

/-! ## 1. What the notes go back to -/

namespace Note

variable {autoRestart : Bool} {n : Note} {code : ExitCode}

theorem exitCode?_success : n.exitCode? autoRestart = some .success ↔ n = .stopTold := by
  rcases n with - | - | (- | - | - | -) <;> simp [exitCode?]

theorem exitCode?_startFailure :
    n.exitCode? autoRestart = some .startFailure ↔ n = .startFailed .startup := by
  rcases n with - | - | (- | - | - | -) <;> simp [exitCode?]

theorem exitCode?_updateRestartFailure :
    n.exitCode? autoRestart = some .updateRestartFailure ↔ n = .startFailed .update := by
  rcases n with - | - | (- | - | - | -) <;> simp [exitCode?]

theorem exitCode?_unexpectedStop :
    n.exitCode? autoRestart = some .unexpectedStopRestartFailure ↔
      n = .foundDown ∧ autoRestart = false ∨ n = .startFailed .relaunch := by
  rcases n with - | - | (- | - | - | -) <;> simp [exitCode?]

theorem mem_of_exitCode? (h : n.exitCode? autoRestart = some code) :
    code ∈ [ExitCode.success, .startFailure, .updateRestartFailure,
      .unexpectedStopRestartFailure] := by
  rcases n with - | - | (- | - | - | -) <;> cases autoRestart <;> simp_all [exitCode?]

end Note

namespace Diary

/-- Only a wait is told of a stop. -/
theorem stopTold_add {β : Type} {r : Request β} (d : Diary) (b : β) (hr : ¬ r.TakesSignals) :
    .stopTold ∈ (d.add ⟨r, b⟩).notes ↔ .stopTold ∈ d.notes := by
  have h := d.added r b
  generalize d.add ⟨r, b⟩ = u at h
  cases h with
  | woken signals => exact absurd trivial hr
  | spawnFailed spec e => simp
  | crashed p => simp [crashed]
  | discarded p result => simp
  | called b c => cases c <;> exact Iff.rfl
  | _ => exact Iff.rfl

/-- **A stop is noted** exactly if signals were taken that tell of one. -/
theorem stopTold_iff (history : List Exchange) :
    .stopTold ∈ (diary history).notes ↔ ∃ signals ∈ taken history, signals.stop = true := by
  induction history using List.reverseRecOn with
  | nil => simp [diary, blank, taken]
  | append_singleton history x ih =>
    obtain ⟨r, b⟩ := x
    rw [diary_append]
    by_cases hr : r.TakesSignals
    · cases r
      case waitForSignals =>
        have hb : .stopTold ∈ (if b.stop then [Note.stopTold] else []) ↔ b.stop = true := by
          cases b.stop <;> simp
        simp [add, wake, ih, hb, taken_append_wait, or_and_right, exists_or]
      all_goals exact hr.elim
    · rw [stopTold_add _ _ hr, taken_append_of_not_takes hr, ih]

end Diary

/-! ## 2. Sessions that nobody asks to stop -/

namespace Watched

/-- As long as nobody asks for a stop, no signals tell of one. -/
def Unasked (t : Watched × List Exchange) : Prop :=
  t.1.since = none → t.1.coordinator.signals.stop = false ∧
    ∀ signals ∈ taken t.2, signals.stop = false

theorem Unasked.answered {β : Type} {r : Request β} {b : β} {t t' : Watched × List Exchange}
    (h : Unasked t) (ha : watched.recorded.answers r t b t') : Unasked t' := by
  obtain ⟨w, history⟩ := t
  obtain ⟨w', history'⟩ := t'
  obtain ⟨ha, rfl⟩ := ha
  intro hsince
  by_cases hr : r.TakesSignals
  · cases r
    case waitForSignals =>
      obtain ⟨c, hc, rfl⟩ := ha
      obtain ⟨hstop, htaken⟩ := h (Option.map_eq_none_iff.mp hsince)
      obtain ⟨hb, hc⟩ := stop_of_takeSignals? hc
      refine ⟨hc.trans hstop, ?_⟩
      simp only [taken_append_wait, List.mem_append, List.mem_singleton]
      rintro signals (hm | rfl)
      · exact htaken signals hm
      · exact hb.trans hstop
    all_goals exact hr.elim
  · obtain ⟨c, hc, rfl⟩ := answers_of_not_takes hr ha
    obtain ⟨hstop, htaken⟩ := h (Option.map_eq_none_iff.mp hsince)
    refine ⟨(congrArg Signals.stop hc).trans hstop, ?_⟩
    simpa only [taken_append_of_not_takes hr] using htaken

theorem Unasked.moved : watched.recorded.Stable Unasked := by
  rintro ⟨w, history⟩ ⟨w', history'⟩ ⟨hm, rfl⟩ h
  have hm : Stirs w w' := hm
  cases hm with
  | emitted signals => exact fun hs => ⟨(stop_emit _ _).trans (h hs).1, (h hs).2⟩
  | stopRequested => exact fun hs => nomatch hs
  | tended c hp hc => exact fun hs => ⟨(congrArg Signals.stop hc).trans (h hs).1, (h hs).2⟩

/-! ## 3. Every run -/

/-- **What an exit code tells** of a history that ends with it. -/
structure Faithful (s : SupervisorSettings) (history : List Exchange) (code : ExitCode) :
    Prop where
  /-- The first start failed, and the timer was never started. -/
  startFailure : code = .startFailure ↔ .startFailed .startup ∈ (diary history).notes
  unstarted : code = .startFailure → (diary history).timed = false
  /-- A start after an update failed. -/
  updateRestartFailure :
    code = .updateRestartFailure ↔ .startFailed .update ∈ (diary history).notes
  /-- The server was found down, and that was it, or the start after it failed. -/
  unexpectedStop : code = .unexpectedStopRestartFailure ↔
    .foundDown ∈ (diary history).notes ∧
      (s.autoRestart = false ∨ .startFailed .relaunch ∈ (diary history).notes)
  /-- Signals were taken that tell of a stop. -/
  success : code = .success ↔ ∃ signals ∈ taken history, signals.stop = true
  only : code ∈ [ExitCode.success, .startFailure, .updateRestartFailure,
    .unexpectedStopRestartFailure]

/-- A session that ends as its notes say ends faithfully. -/
theorem faithful_of_verdicts {s : SupervisorSettings} {history : List Exchange} {code : ExitCode}
    (hv : verdicts s (diary history).notes = [code])
    (hu : code = .startFailure → (diary history).timed = false) : Faithful s history code := by
  have leads (c : ExitCode) :
      code = c ↔ ∃ n ∈ (diary history).notes, n.exitCode? s.autoRestart = some c := by
    rw [← mem_verdicts, hv, List.mem_singleton, eq_comm]
  have hrelaunch : .startFailed .relaunch ∈ (diary history).notes →
      .foundDown ∈ (diary history).notes := fun hm => Diary.relaunched history (Or.inr hm)
  constructor
  · simp [leads, Note.exitCode?_startFailure]
  · exact hu
  · simp [leads, Note.exitCode?_updateRestartFailure]
  · simp only [leads, Note.exitCode?_unexpectedStop]
    grind
  · simp [leads, Note.exitCode?_success, ← Diary.stopTold_iff]
  · obtain ⟨n, -, hn⟩ := (leads code).mp rfl
    exact Note.mem_of_exitCode? hn

/-- **Faithful exit codes.**  In every run of a session, with any settings, whatever is answered and
whenever a stop is requested: once its notes lead to an exit code, no process is started and the
gateway is not asked; and if it returns, and the timer ended well, its exit code tells what
happened, and is only a success if a stop was requested. -/
theorem exit_code_faithful (s : Supervisor) {q : Program ExitCode} {w : Watched}
    {history : List Exchange}
    (h : watched.recorded.Reaches s.run (⟨.initial, none⟩, []) q (w, history)) :
    (∀ {β : Type} {r : Request β} {next : β → Program ExitCode}, q = .ask r next →
      verdicts s.settings (diary history).notes ≠ [] → ¬ r.Spawns ∧ ¬ r.AsksGateway) ∧
    ∀ code, q = .done code → (diary history).joined ≠ some false →
      Faithful s.settings history code ∧ (w.since = none → code ≠ .success) := by
  have hrun := s.run_recorded watched ⟨.initial, none⟩
  constructor
  · rintro β r next rfl hdecided
    have hr : (diary history).Admits s.settings r := (hrun h).2
    cases r
    case spawn spec => exact absurd hr.2 hdecided
    case checkServer => exact absurd hr.1 hdecided
    case checkFramework => exact absurd hr.1 hdecided
    case updateServer => exact absurd hr.2.1 hdecided
    case updateFramework quiet => exact absurd hr.2.1 hdecided
    all_goals exact ⟨id, id⟩
  · rintro code rfl hjoin
    have hended : (diary history).Concluded s.settings code := (hrun h).2
    have hfaithful : Faithful s.settings history code :=
      faithful_of_verdicts (hended.verdicts hjoin) hended.unstarted
    have hunasked : Unasked (w, history) :=
      hrun.keeps (fun _ _ _ _ _ ha ht => Unasked.answered ht ha) Unasked.moved h
        fun _ => ⟨rfl, nofun⟩
    refine ⟨hfaithful, fun hsince hs => ?_⟩
    obtain ⟨signals, hm, hstop⟩ := hfaithful.success.mp hs
    exact absurd (((hunasked hsince).2 signals hm).symm.trans hstop) (by decide)

/-- The session whose update is followed by a start that fails ends with the exit code for that. -/
theorem exit_code_faithful_update : ∃ w history,
    watched.recorded.Reaches updating.run (⟨.initial, none⟩, []) (.done .updateRestartFailure)
      (w, history) ∧
    .startFailed .update ∈ (diary history).notes ∧
    ¬ ∃ signals ∈ taken history, signals.stop = true := by
  have ended : (signalledThen 23).1 = .done .updateRestartFailure :=
    Program.eq_done_of_result? (by decide +kernel)
  have reaches := ended ▸ reaches_signalledThen 23
  have hjoin : (diary (signalledThen 23).2.2).joined ≠ some false := by decide +kernel
  have hfaithful := ((exit_code_faithful updating reaches).2 _ rfl hjoin).1
  refine ⟨_, _, reaches, hfaithful.updateRestartFailure.mp rfl, fun hstop => ?_⟩
  exact nomatch hfaithful.success.mpr hstop

end Watched
end ServerWarden
