/-
# A session beside its coordinator and its timer

Here checks are raised by the timer alone.  Time passes, the timer takes its steps, stops are
requested, and tasks wait and are woken, all between any two requests of the session; every answer
that has nothing to do with the timer is open.

A timer without an interval for update checks never raises one (`TimerPlace.Moves.raising`,
`TimerPlan.Counted`).  So a session whose interval is zero is never told to look for updates:
`Clockwork.Unscheduled` is what every step of it keeps.
-/
import ServerWarden.Proofs.Control.Conduct
import ServerWarden.Proofs.Control.StopRequest
import ServerWarden.Proofs.Coordinator.Checks
import ServerWarden.Proofs.Coordinator.Crew

namespace ServerWarden

open Surroundings

/-! ## 1. The surroundings -/

/-- A coordinator, and the timer with its plan once it was started. -/
structure Clockwork where
  now : Instant
  coordinator : Coordinator
  timer : Option (TimerPlan × TimerPlace)

namespace Clockwork

/-- Before a session, at some moment. -/
def initial (now : Instant) : Clockwork := ⟨now, .initial, none⟩

/-- What happens by itself. -/
inductive Moves (t : Clockwork) : Clockwork → Prop where
  | passed (now : Instant) : t.now ≤ now → Moves t { t with now }
  /-- The timer takes a step. -/
  | timed {w : WaiterId} {p : TimerPlan} {place place' : TimerPlace} {c : Coordinator} :
      t.timer = some (p, place) → place.Moves p w t.now t.coordinator place' c →
      Moves t { t with coordinator := c, timer := some (p, place') }
  | stopRequested : Moves t { t with coordinator := t.coordinator.requestStop }
  /-- Tasks wait, are woken and give up. -/
  | tended (c : Coordinator) : c.phase = t.coordinator.phase →
      c.signals = t.coordinator.signals → Moves t { t with coordinator := c }

end Clockwork

/-- **Surroundings in which the coordinator and the timer are fixed.**  A timer that is started sets
its first targets at some moment. -/
def clocked : Surroundings Clockwork where
  answers
    | _, .setPhase p, t, _, t' => t' = { t with coordinator := t.coordinator.setPhase p }
    | _, .waitForSignals, t, signals, t' =>
      ∃ c, t.coordinator.takeSignals? = some (signals, c) ∧ t' = { t with coordinator := c }
    | _, .startTimer health update, t, _, t' => ∃ armed, t' =
      { t with timer := some (.of health update, .start (.of health update) armed) }
    | _, _, t, _, t' => t' = t
  moves := Clockwork.Moves

namespace Clockwork

/-- **A timer that is overdue raises its checks**, if the session lets it run. -/
theorem reaches_tick {α : Type} (q : Program α) {t : Clockwork} {history : List Exchange}
    {p : TimerPlan} {targets targets' : Targets} {checks : Signals} {c : Coordinator}
    {now : Instant} (ht : t.timer = some (p, .choosing targets)) (hnow : t.now ≤ now)
    (hdue : targets.earliest.wake ≤ now) (hfire : targets.fire? p now = some (checks, targets'))
    (hany : checks.any = true) (hadd : t.coordinator.addSignals? checks = some c) :
    clocked.recorded.Reaches q (t, history)
      q ({ now, coordinator := c, timer := some (p, .ringing targets') }, history) := by
  have hrun : t.coordinator.phase = .run := (Coordinator.addSignals?_eq_some.mp hadd).1
  have hgo : TimerPlace.goOn targets t.coordinator = .counting targets := by
    simp [TimerPlace.goOn, hrun]
  have hcount : TimerPlace.count p targets now = .raising checks targets' := by
    simp [TimerPlace.count, hfire, hany]
  have hraise : TimerPlace.raise checks targets' t.coordinator = (.ringing targets', c) := by
    simp [TimerPlace.raise, hadd]
  obtain ⟨now₀, c₀, timer⟩ := t
  obtain rfl : timer = some (p, .choosing targets) := ht
  have step {u v : Clockwork} (hm : Moves u v) :
      clocked.recorded.Reaches q (u, history) q (v, history) :=
    have hmoves : clocked.recorded.moves (u, history) (v, history) := ⟨hm, rfl⟩
    .moved hmoves (.here _ _)
  have passed : Moves ⟨now₀, c₀, some (p, .choosing targets)⟩
      ⟨now, c₀, some (p, .choosing targets)⟩ := .passed now hnow
  have due : Moves ⟨now, c₀, some (p, .choosing targets)⟩ ⟨now, c₀, some (p, .due targets)⟩ :=
    .timed (w := 0) rfl (.overdue hdue)
  have counting : Moves ⟨now, c₀, some (p, .due targets)⟩
      ⟨now, c₀, some (p, .counting targets)⟩ := .timed (w := 0) rfl (hgo ▸ .goOn targets)
  have raising : Moves ⟨now, c₀, some (p, .counting targets)⟩
      ⟨now, c₀, some (p, .raising checks targets')⟩ :=
    .timed (w := 0) rfl (hcount ▸ .count targets)
  have ringing : TimerPlace.Moves p 0 now c₀ (.raising checks targets') (.ringing targets') c := by
    have hm : TimerPlace.Moves p 0 now c₀ (.raising checks targets') _ _ := .raise checks targets'
    rwa [hraise] at hm
  exact (step passed).trans <| (step due).trans <| (step counting).trans <|
    (step raising).trans <| step (.timed rfl ringing)

end Clockwork

/-! ## 2. A timer without an interval for update checks -/

namespace TimerPlace

variable {p : TimerPlan} {w : WaiterId} {now : Instant} {c c' : Coordinator}
  {place : TimerPlace} {checks : Signals} {targets : Targets}

theorem start_ne_raising : start p now ≠ .raising checks targets := by
  unfold start
  split <;> exact nofun

/-- The timer is about to raise what it has just worked out. -/
theorem Moves.raising (h : place.Moves p w now c (.raising checks targets) c') :
    ∃ before, place = .counting before ∧ before.fire? p now = some (checks, targets) := by
  generalize hp : TimerPlace.raising checks targets = place' at h
  cases h with
  | count before =>
    refine ⟨before, rfl, ?_⟩
    unfold TimerPlace.count at hp
    split at hp
    · exact nomatch hp
    · next heq =>
      split at hp
      · cases hp
        exact heq
      · exact nomatch hp
  | choose before =>
    rcases choose_cases before c w with ⟨n, -, hc⟩ | ⟨-, hc⟩
    · rw [hc] at hp
      exact nomatch hp
    · rw [hc] at hp
      exact nomatch hp
  | notice before =>
    unfold TimerPlace.notice at hp
    split at hp
    · exact nomatch hp
    · exact nomatch hp
    · exact absurd hp.symm start_ne_raising
  | goOn before =>
    unfold TimerPlace.goOn at hp
    split at hp <;> exact nomatch hp
  | raise earlier before =>
    rcases raise_cases earlier before c with ⟨c₁, -, hc⟩ | ⟨-, hc⟩
    · rw [hc] at hp
      exact nomatch hp
    · rw [hc] at hp
      exact nomatch hp
  | _ => exact nomatch hp

end TimerPlace

/-- Update checks are worked out only if there is an interval for them. -/
theorem Targets.fire?_update {p : TimerPlan} {t t' : Targets} {now : Instant} {checks : Signals}
    (hp : p.updateInterval = none) (h : t.fire? p now = some (checks, t')) :
    checks.updateCheck = false := by
  have hcounted := Targets.fire?_of? h .update
  generalize hflag : checks.has .update = flag, ht : t'.of? .update = target? at hcounted
  cases hcounted with
  | due _ hi => exact absurd (hi.symm.trans hp) nofun
  | early => exact hflag
  | idle => exact hflag

/-! ## 3. Sessions without an interval -/

namespace Clockwork

/-- No update check was signalled, none is about to be, and the timer has no interval for one. -/
structure Unscheduled (t : Clockwork × List Exchange) : Prop where
  taken : ∀ signals ∈ taken t.2, signals.updateCheck = false
  last : (diary t.2).signals.updateCheck = false
  pending : t.1.coordinator.signals.updateCheck = false
  plan : ∀ p place, t.1.timer = some (p, place) → p.updateInterval = none
  raising : ∀ p checks targets, t.1.timer = some (p, .raising checks targets) →
    checks.updateCheck = false

theorem timer_of_not_steers {β : Type} {r : Request β} {k k' : Clockwork} {b : β}
    (hr : ¬ r.Steers) (h : clocked.answers r k b k') : k' = k := by
  cases r
  case setPhase p => exact absurd trivial hr
  case waitForSignals => exact absurd trivial hr
  case startTimer health update => exact absurd trivial hr
  all_goals exact h

/-- An answer that brings no signals. -/
theorem Unscheduled.quiet {β : Type} {r : Request β} {b : β} {k k' : Clockwork}
    {history : List Exchange} (h : Unscheduled (k, history)) (hr : ¬ r.TakesSignals)
    (hlast : (diary (history ++ [⟨r, b⟩])).signals = (diary history).signals)
    (hc : k'.coordinator.signals = k.coordinator.signals)
    (hplan : ∀ p place, k'.timer = some (p, place) → p.updateInterval = none)
    (hraising : ∀ p checks targets, k'.timer = some (p, .raising checks targets) →
      checks.updateCheck = false) : Unscheduled (k', history ++ [⟨r, b⟩]) where
  taken := by
    rw [taken_append_of_not_takes hr]
    exact h.taken
  last := hlast ▸ h.last
  pending := hc ▸ h.pending
  plan := hplan
  raising := hraising

theorem Unscheduled.answered {s : SupervisorSettings} {β : Type} {r : Request β} {b : β}
    {t t' : Clockwork × List Exchange} (hs : s.updateInterval.isZero = true) (h : Unscheduled t)
    (hr : (diary t.2).Admits s r) (ha : clocked.recorded.answers r t b t') : Unscheduled t' := by
  obtain ⟨k, history⟩ := t
  obtain ⟨k', history'⟩ := t'
  obtain ⟨ha, rfl⟩ := ha
  by_cases hsteers : r.Steers
  · cases r
    case setPhase p =>
      cases ha
      exact h.quiet id (by rw [diary_append]; rfl) (Coordinator.setPhase_signals _ p) h.plan
        h.raising
    case waitForSignals =>
      obtain ⟨c, hc, rfl⟩ := ha
      obtain ⟨-, rfl, rfl⟩ := Coordinator.takeSignals?_eq_some.mp hc
      refine ⟨?_, ?_, rfl, h.plan, h.raising⟩
      · simp only [taken_append_wait, List.mem_append, List.mem_singleton]
        rintro signals (hm | rfl)
        · exact h.taken signals hm
        · exact h.pending
      · rw [diary_append]
        exact h.pending
    case startTimer health update =>
      obtain ⟨armed, rfl⟩ := ha
      obtain rfl : update = s.updateInterval := hr
      refine h.quiet id (by rw [diary_append]; rfl) rfl ?_ ?_
      · intro p place hp
        cases hp
        simp [TimerPlan.of, hs]
      · intro p checks targets hp
        exact absurd (Prod.ext_iff.mp (Option.some.inj hp)).2 TimerPlace.start_ne_raising
    case joinTimer =>
      cases ha
      exact h.quiet id (by rw [diary_append]; rfl) rfl h.plan h.raising
    all_goals exact hsteers.elim
  · obtain rfl : k' = k := timer_of_not_steers hsteers ha
    have hlast := (Diary.add_sameTimer (diary history) b hsteers).signals
    exact h.quiet (fun ht => hsteers ht.steers) (by rw [diary_append]; exact hlast) rfl h.plan
      h.raising

theorem Unscheduled.moved : clocked.recorded.Stable Unscheduled := by
  rintro ⟨k, history⟩ ⟨k', history'⟩ ⟨hm, rfl⟩ h
  have hm : Moves k k' := hm
  cases hm with
  | passed now _ => exact ⟨h.taken, h.last, h.pending, h.plan, h.raising⟩
  | stopRequested => exact ⟨h.taken, h.last, h.pending, h.plan, h.raising⟩
  | tended c _ hc =>
    exact ⟨h.taken, h.last, (congrArg Signals.updateCheck hc).trans h.pending, h.plan, h.raising⟩
  | @timed w p place place' c ht hstep =>
    have hp : p.updateInterval = none := h.plan p place ht
    refine ⟨h.taken, h.last, ?_, fun p' place'' hp' => ?_, fun p' checks targets hp' => ?_⟩
    · rcases hstep.supervisor with ⟨-, rfl⟩ | ⟨checks, targets, rfl, -, hadd⟩ | ⟨-, hc, -⟩
      · exact h.pending
      · obtain ⟨-, rfl⟩ := Coordinator.addSignals?_eq_some.mp hadd
        show (k.coordinator.signals.updateCheck || checks.updateCheck) = false
        rw [h.pending, h.raising p checks targets ht]
        rfl
      · exact (congrArg Signals.updateCheck hc).trans h.pending
    · cases hp'
      exact hp
    · cases hp'
      obtain ⟨before, -, hfire⟩ := hstep.raising
      exact Targets.fire?_update hp hfire

/-- **No interval, no update check.**  In a session whose interval is zero, no signals that are
taken tell of an update check. -/
theorem unscheduled (s : Supervisor) (now : Instant) (hs : s.settings.updateInterval.isZero = true)
    {q : Program ExitCode} {t : Clockwork × List Exchange}
    (h : clocked.recorded.Reaches s.run (initial now, []) q t) : Unscheduled t := by
  have start : Unscheduled (initial now, []) := ⟨nofun, rfl, rfl, nofun, nofun⟩
  exact (s.run_recorded clocked (initial now)).keeps
    (fun _ _ _ _ hr ha ht => ht.answered hs hr ha) Unscheduled.moved h start

end Clockwork
end ServerWarden
