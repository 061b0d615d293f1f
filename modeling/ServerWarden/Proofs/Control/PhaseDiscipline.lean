/-
# The phase of the timer while the server is touched

The timer is to raise nothing while the server is down on purpose, and to run whenever the
supervisor waits for it.  So the supervisor sets the phase around whatever it does to the server:
it pauses the timer before the first touch, lets it run again before the next wait, and stops it
before its end is waited for.

`Watched.phase_disciplined` says so of every run of a session beside its coordinator, which others
use at any moment, but for the phase.  What is asked for when is the table of `Diary.Admits`; what
is left to see is that the phase in the diary is the one of the coordinator (`Watched.Aligned`), and
that it is the last one once the timer was joined.
-/
import ServerWarden.Proofs.Control.Conduct
import ServerWarden.Proofs.Control.StopRequest
import ServerWarden.Proofs.Coordinator.Crew

namespace ServerWarden

open Surroundings

namespace Request

/-- Requests that start a server, bring one down, tell its players of that, or install something.  A
health report is asked for on the way down if the shutdown is held back. -/
def Intervenes (delayed : Bool) : ⦃β : Type⦄ → Request β → Prop
  | _, .spawn _ => True
  | _, .command text _ => text = Keeper.queryCommand → delayed = true
  | _, .interrupt _ => True
  | _, .terminate _ => True
  | _, .updateServer => True
  | _, .updateFramework _ => True
  | _, _ => False

/-- Requests that wait for the end of the timer. -/
def JoinsTimer : ⦃β : Type⦄ → Request β → Prop
  | _, .joinTimer => True
  | _, _ => False

theorem Intervenes.resting {β : Type} {r : Request β} {s : SupervisorSettings} {d : Diary}
    (hr : r.Intervenes d.delayed) (h : d.Admits s r) : d.ticking = false := by
  cases r
  case spawn spec => exact h.1
  case command text timeout =>
    refine Bool.eq_false_iff.mpr fun ht => ?_
    obtain ⟨htext, hdelayed⟩ := h ht
    exact absurd ((hr htext).symm.trans hdelayed) (by decide)
  case interrupt p => exact h
  case terminate p => exact h
  case updateServer => exact h.1
  case updateFramework quiet => exact h.1
  all_goals exact hr.elim

end Request

namespace Watched

/-! ## 1. The phase in the diary -/

/-- **What is asked for in which phase**, with the history so far. -/
structure Disciplined (history : List Exchange) {β : Type} (r : Request β) (phase : TimerPhase) :
    Prop where
  /-- Once the timer was started, it does not run while the server is touched. -/
  paused : (diary history).timed = true → r.Intervenes (diary history).delayed → phase ≠ .run
  /-- It runs while signals are waited for. -/
  running : r.TakesSignals → phase = .run
  /-- Its end is waited for in the last phase, and nothing is done in another one from then on. -/
  stopped : r.JoinsTimer ∨ (diary history).joined.isSome = true → phase = .stop

/-- The diary has the phase of the coordinator, and the timer was joined in the last one only. -/
structure Aligned (t : Watched × List Exchange) : Prop where
  phase : t.1.coordinator.phase = (diary t.2).phase
  joined : (diary t.2).joined.isSome = true → (diary t.2).phase = .stop

/-- What has nothing to do with the timer leaves the coordinator alone. -/
theorem coordinator_of_not_steers {β : Type} {r : Request β} {w w' : Watched} {b : β}
    (hr : ¬ r.Steers) (h : watched.answers r w b w') : w'.coordinator = w.coordinator := by
  cases r
  case setPhase p => exact absurd trivial hr
  case waitForSignals => exact absurd trivial hr
  all_goals
    cases h
    rfl

/-- **One more answer**, to what the diary admits. -/
theorem Aligned.answered {s : SupervisorSettings} {β : Type} {r : Request β} {b : β}
    {t t' : Watched × List Exchange} (h : Aligned t) (hr : (diary t.2).Admits s r)
    (ha : watched.recorded.answers r t b t') : Aligned t' := by
  obtain ⟨w, history⟩ := t
  obtain ⟨w', history'⟩ := t'
  obtain ⟨ha, rfl⟩ := ha
  suffices hadd : w'.coordinator.phase = ((diary history).add ⟨r, b⟩).phase ∧
      (((diary history).add ⟨r, b⟩).joined.isSome = true →
        ((diary history).add ⟨r, b⟩).phase = .stop) by
    rw [← diary_append] at hadd
    exact ⟨hadd.1, hadd.2⟩
  by_cases hs : r.Steers
  · cases r
    case setPhase p =>
      cases ha
      refine ⟨?_, fun hj => if_pos (h.joined hj)⟩
      exact (Coordinator.setPhase_phase _ _).trans (by rw [h.phase]; rfl)
    case waitForSignals =>
      obtain ⟨c, hc, rfl⟩ := ha
      obtain ⟨-, -, rfl⟩ := Coordinator.takeSignals?_eq_some.mp hc
      exact ⟨h.phase, h.joined⟩
    case startTimer health update =>
      cases ha
      exact ⟨h.phase, h.joined⟩
    case joinTimer =>
      cases ha
      exact ⟨h.phase, fun _ => hr⟩
    all_goals exact hs.elim
  · have hsame := Diary.add_sameTimer (diary history) b hs
    rw [coordinator_of_not_steers hs ha, hsame.phase, hsame.joined]
    exact ⟨h.phase, h.joined⟩

/-- Others leave the phase alone. -/
theorem Stirs.phase {w w' : Watched} (h : Stirs w w') :
    w'.coordinator.phase = w.coordinator.phase := by
  cases h with
  | emitted signals => exact Coordinator.emit_phase _ _
  | stopRequested => rfl
  | tended c hp hs => exact hp

theorem Aligned.moved : watched.recorded.Stable Aligned := by
  rintro ⟨w, history⟩ ⟨w', history'⟩ ⟨hm, rfl⟩ h
  exact ⟨(Stirs.phase hm).trans h.phase, h.joined⟩

/-! ## 2. Every run -/

/-- **The phase of the timer in every run.**  Whatever is answered, and whatever others do with the
coordinator but set the phase: from the start of the timer on, it does not run while the server is
started, brought down, or installed, or its players are told of a shutdown; it runs whenever signals
are waited for; and its end is waited for, and the server brought down for the last time, once the
last phase was set. -/
theorem phase_disciplined (s : Supervisor) {β : Type} {r : Request β}
    {next : β → Program ExitCode} {w : Watched} {history : List Exchange}
    (h : watched.recorded.Reaches s.run (⟨.initial, none⟩, []) (.ask r next) (w, history)) :
    Disciplined history r w.coordinator.phase := by
  have hrun := s.run_recorded watched ⟨.initial, none⟩
  have hr : (diary history).Admits s.settings r := (hrun h).2
  have start : Aligned (⟨.initial, none⟩, []) := ⟨rfl, fun hj => absurd hj (by decide)⟩
  have hal : Aligned (w, history) :=
    hrun.keeps (fun _ _ _ _ hr ha hal => Aligned.answered hal hr ha) Aligned.moved h start
  constructor
  · intro htimed hi hphase
    have hresting := hi.resting hr
    rw [Diary.ticking, htimed, ← hal.phase, hphase] at hresting
    exact absurd hresting (by decide)
  · intro ht
    cases r
    case waitForSignals =>
      have hticking : (diary history).ticking = true := hr
      exact hal.phase.trans (of_decide_eq_true (Bool.and_eq_true_iff.mp hticking).2)
    all_goals exact ht.elim
  · rintro (hj | hj)
    · cases r
      case joinTimer => exact hal.phase.trans hr
      all_goals exact hj.elim
    · exact hal.phase.trans (hal.joined hj)

/-! ## 3. An update in a session -/

/-- A session that installs the server when that is signalled, once for each newer version. -/
def updating : Supervisor where
  settings := { installing.settings with
    onStartup := ⟨false, false⟩
    onInterval := ⟨true, false⟩
    serverRetry := ⟨.ofSecs 10, 1⟩ }
  keeper := installing.keeper

/-- What is answered if the server cannot be started a second time. -/
def unrestartable : Player watched where
  answer
    | _, .spawn spec, t =>
      let result := if t.coordinator.phase = .run then .ok ⟨0⟩ else .error .protocol
      some (result, t.note ⟨.spawn spec, result⟩ t.coordinator)
    | _, r, t => unconfirmed.answer r t
  possible := by
    intro β r t t' b h
    cases r
    case spawn spec =>
      cases h
      rfl
    all_goals exact unconfirmed.possible h

/-- An update check is signalled. -/
def signalled (t : Watched × List Exchange) : Watched × List Exchange :=
  ({ t.1 with coordinator := (t.1.coordinator.emit ⟨false, false, true⟩).2 }, t.2)

/-- The session at its first wait. -/
def attentive : Program ExitCode × (Watched × List Exchange) :=
  unrestartable.recorded.play 10 updating.run (⟨.initial, none⟩, [])

/-- A number of steps later, after an update check was signalled. -/
def signalledThen (n : Nat) : Program ExitCode × (Watched × List Exchange) :=
  unrestartable.recorded.play n attentive.1 (signalled attentive.2)

theorem reaches_signalledThen (n : Nat) :
    watched.recorded.Reaches updating.run (⟨.initial, none⟩, []) (signalledThen n).1
      (signalledThen n).2 :=
  have moves (t : Watched × List Exchange) : watched.recorded.moves t (signalled t) :=
    ⟨.emitted _, rfl⟩
  (unrestartable.recorded.reaches 10 updating.run (⟨.initial, none⟩, [])).trans
    (.moved (moves _) (unrestartable.recorded.reaches n _ _))

/-- The install that follows is asked for while the timer is paused. -/
theorem phase_disciplined_update : ∃ next w history,
    watched.recorded.Reaches updating.run (⟨.initial, none⟩, []) (.ask .updateServer next)
      (w, history) ∧
    (diary history).timed = true ∧ w.coordinator.phase ≠ .run := by
  have reaches : watched.recorded.Reaches updating.run (⟨.initial, none⟩, [])
      (.ask .updateServer _) (signalledThen 9).2 := reaches_signalledThen 9
  have htimed : (diary (signalledThen 9).2.2).timed = true := by decide +kernel
  exact ⟨_, _, _, reaches, htimed, (phase_disciplined updating reaches).paused htimed trivial⟩

end Watched
end ServerWarden
