/-
# What is handed out after the timer was resumed

A timer that takes notice of a change of phase sets its targets anew, so none of its checks is due
before a whole interval has passed (`Rearmed`).  This does not reach two kinds of check, which are
handed out all the same:

* checks that were raised before and wait for the supervisor: a change of phase leaves the signals
  as they are;
* checks that the timer raises after the change and before it takes notice: it may find a target due
  and the notification at the same moment, and goes on with the target if it looks there first.

A run of each is at the end.  There is no third kind: whatever is handed out before a whole interval
has passed since the last change was raised in one of these ways, or by a task other than the timer
(`Excuse`).
-/
import ServerWarden.Proofs.Coordinator.Checks
import ServerWarden.Proofs.Coordinator.Crew

namespace ServerWarden

/-- The targets of a timer. -/
def TimerPlace.targets? : TimerPlace → Option Targets
  | .choosing targets | .parked targets | .notified targets | .due targets | .counting targets
  | .raising _ targets | .ringing targets => some targets
  | .finished | .failed => none

namespace Crew

variable {p : TimerPlan} {w : WaiterId} {s s₁ s' : Crew} {e : Event} {start bound : Instant}
  {history later events after : List (Instant × Event)} {k : Check} {interval : Duration}

/-! ## 1. Where a check that is there comes from -/

/-- The phase was changed. -/
def Event.isChange : Event → Bool
  | .phaseSet _ changed => changed
  | _ => false

/-- A check of a kind was raised and accepted. -/
def Event.raises (k : Check) : Event → Bool
  | .emitted checks accepted | .ticked checks accepted => accepted && checks.has k
  | _ => false

theorem has_addSignals? {c c' : Coordinator} {checks : Signals}
    (h : c.addSignals? checks = some c') :
    c'.signals.has k = (c.signals.has k || checks.has k) := by
  obtain ⟨-, rfl⟩ := Coordinator.addSignals?_eq_some.mp h
  cases k <;> rfl

theorem has_takeSignals? {c c' : Coordinator} {signals : Signals}
    (h : c.takeSignals? = some (signals, c')) :
    signals = c.signals ∧ c'.signals.has k = false := by
  obtain ⟨-, hs, rfl⟩ := Coordinator.takeSignals?_eq_some.mp h
  exact ⟨hs, by cases k <;> rfl⟩

/-- A check that is there was there before, or was raised in this step. -/
theorem Step.has (h : Step p w s e s') (hk : s'.coordinator.signals.has k = true) :
    s.coordinator.signals.has k = true ∧ e.delivered? = none ∨ e.raises k = true := by
  have hsame (hs : s'.coordinator.signals = s.coordinator.signals) (he : e.delivered? = none) :
      s.coordinator.signals.has k = true ∧ e.delivered? = none ∨ e.raises k = true :=
    Or.inl ⟨hs ▸ hk, he⟩
  cases h with
  | setPhase hc =>
    obtain ⟨-, rfl⟩ := Coordinator.changePhase?_eq_some.mp hc
    exact hsame rfl rfl
  | emit ha =>
    rw [has_addSignals? ha, Bool.or_eq_true] at hk
    rcases hk with hk | hk
    · exact Or.inl ⟨hk, rfl⟩
    · exact Or.inr hk
  | requestStop =>
    refine Or.inl ⟨?_, rfl⟩
    cases k <;> exact hk
  | take ht => exact absurd ((has_takeSignals? ht).2.symm.trans hk) Bool.false_ne_true
  | wait hm =>
    rcases hm.signals with ⟨rfl, hs⟩ | ⟨signals, rfl, ht⟩
    · exact hsame hs rfl
    · exact absurd ((has_takeSignals? ht).2.symm.trans hk) Bool.false_ne_true
  | time hm =>
    have hdeed := delivered?_deed s.coordinator s.timer
    rcases hm.supervisor with ⟨-, rfl⟩ | ⟨checks, targets, hplace, -, ha⟩ | ⟨-, hs, -⟩
    · exact hsame rfl hdeed
    · dsimp only at hk
      rw [has_addSignals? ha, Bool.or_eq_true] at hk
      rcases hk with hk | hk
      · exact Or.inl ⟨hk, hdeed⟩
      · have hrun := (Coordinator.addSignals?_eq_some.mp ha).1
        exact Or.inr (by simp [hplace, deed, Event.raises, hrun, hk])
    · exact hsame hs hdeed
  | _ => exact hsame rfl rfl

/-- What is handed out is what is there. -/
theorem Step.delivered (h : Step p w s e s') {signals : Signals}
    (hd : e.delivered? = some signals) : signals = s.coordinator.signals := by
  cases h with
  | take ht =>
    cases hd
    exact (Coordinator.takeSignals?_eq_some.mp ht).2.1
  | wait hm =>
    rcases hm.signals with ⟨rfl, -⟩ | ⟨signals', rfl, ht⟩
    · exact nomatch hd
    · cases hd
      exact (Coordinator.takeSignals?_eq_some.mp ht).2.1
  | time hm => exact nomatch (delivered?_deed _ _).symm.trans hd
  | _ => exact nomatch hd

theorem Step.of_phaseSet {phase : TimerPhase} (h : Step p w s (.phaseSet phase true) s') :
    ∃ c, s.coordinator.changePhase? phase = some c ∧
      s' = { s with coordinator := c, changing := phase :: s.changing } := by
  generalize he : Event.phaseSet phase true = e at h
  cases h with
  | setPhase hc =>
    cases he
    exact ⟨_, hc, rfl⟩
  | time hm =>
    have hdeed := ofTimer_deed s.coordinator s.timer
    rw [← he] at hdeed
    exact nomatch hdeed
  | _ => exact nomatch he

/-- A timer that raises checks had worked them out. -/
theorem Step.of_ticked {checks : Signals} {accepted : Bool}
    (h : Step p w s (.ticked checks accepted) s') :
    ∃ targets, s.timer = .raising checks targets := by
  generalize he : Event.ticked checks accepted = e at h
  cases h with
  | time hm =>
    unfold deed at he
    split at he
    · split at he <;> exact nomatch he
    next checks' targets hplace =>
      cases he
      exact ⟨targets, hplace⟩
    · exact nomatch he
  | _ => exact nomatch he

/-- A timer that takes notice of a change sets its targets anew, or ends. -/
theorem Step.of_noticed (h : Step p w s .noticed s') :
    s'.coordinator.phaseChanged = false ∧
      (s'.timer = .finished ∨ s'.timer = TimerPlace.start p s.now) := by
  generalize he : Event.noticed = e at h
  cases h with
  | time hm =>
    unfold deed at he
    split at he
    next targets hplace =>
      split at he
      next hch =>
        rw [hplace] at hm
        cases hm with
        | notice targets =>
          rw [TimerPlace.notice_of_changed targets hch]
          refine ⟨rfl, ?_⟩
          dsimp only
          split
          · exact Or.inl rfl
          · exact Or.inr rfl
      next => exact nomatch he
    · exact nomatch he
    · exact nomatch he
  | _ => exact nomatch he

/-! ## 2. A timer that has set its targets anew -/

/-- **No check of a kind is due before `bound`**, and none is raised before. -/
structure Rearmed (k : Check) (bound : Instant) (s : Crew) : Prop where
  seen : s.coordinator.phaseChanged = false
  targets : ∀ t target, s.timer.targets? = some t → t.of? k = some target → bound ≤ target
  checks : ∀ checks t, s.timer = .raising checks t → checks.has k = true → bound ≤ s.now

namespace Rearmed

/-- It is so once the timer has taken notice. -/
theorem of_noticed (h : Step p w s .noticed s') (hk : p.interval? k = some interval)
    (hbound : bound ≤ s.now.add interval) : Rearmed k bound s' := by
  obtain ⟨hseen, hplace⟩ := h.of_noticed
  refine ⟨hseen, ?_, ?_⟩
  · intro t target ht htarget
    rcases hplace with hplace | hplace
    · rw [hplace] at ht
      exact nomatch ht
    · rw [hplace] at ht
      unfold TimerPlace.start at ht
      split at ht
      next armed ha =>
        obtain rfl := Option.some.inj ht
        rw [TimerPlan.arm?_of? ha, hk] at htarget
        obtain rfl := Option.some.inj htarget
        exact hbound
      next => exact nomatch ht
  · intro checks t ht
    rcases hplace with hplace | hplace
    · exact nomatch hplace.symm.trans ht
    · rw [hplace] at ht
      unfold TimerPlace.start at ht
      split at ht <;> exact nomatch ht

/-- A timer that has its targets from the step before. -/
theorem kept (h : Rearmed k bound s) {timer : TimerPlace} {c : Coordinator}
    (hseen : c.phaseChanged = s.coordinator.phaseChanged)
    (ht : timer.targets? = none ∨ timer.targets? = s.timer.targets?)
    (hchecks : ∀ checks t, timer ≠ .raising checks t) :
    Rearmed k bound { s with timer, coordinator := c } where
  seen := hseen.trans h.seen
  targets t target hs := by
    rcases ht with ht | ht
    · exact nomatch ht.symm.trans hs
    · exact h.targets t target (ht.symm.trans hs)
  checks checks t hr := absurd hr (hchecks checks t)

theorem counted (h : Rearmed k bound s) {targets : Targets} (hplace : s.timer = .counting targets) :
    Rearmed k bound { s with timer := TimerPlace.count p targets s.now } := by
  have hold (target : Instant) : targets.of? k = some target → bound ≤ target :=
    h.targets targets target (by rw [hplace]; rfl)
  unfold TimerPlace.count
  cases hf : targets.fire? p s.now with
  | none => exact ⟨h.seen, nofun, nofun⟩
  | some r =>
    obtain ⟨checks, next⟩ := r
    obtain ⟨hraised, hnext⟩ := (Targets.fire?_of? hf k).le hold
    dsimp only
    split
    · refine ⟨h.seen, fun t target ht => ?_, fun c t ht hc => ?_⟩
      · obtain rfl := Option.some.inj ht
        exact hnext target
      · cases ht
        exact hraised hc
    · refine ⟨h.seen, fun t target ht => ?_, nofun⟩
      obtain rfl := Option.some.inj ht
      exact hnext target

/-- A step of the timer. -/
theorem timed (h : Rearmed k bound s) {timer : TimerPlace} {c : Coordinator}
    (hm : s.timer.Moves p w s.now s.coordinator timer c) :
    Rearmed k bound { s with timer, coordinator := c } := by
  have hseen := h.seen
  obtain ⟨now, c₀, place, waiter, changing, raising⟩ := s
  cases hm with
  | choose targets =>
    rcases TimerPlace.choose_cases targets c₀ w with ⟨n, -, hc⟩ | ⟨-, hc⟩ <;> rw [hc] <;>
      exact h.kept rfl (Or.inr rfl) nofun
  | notice targets =>
    rw [TimerPlace.notice_of_unchanged targets hseen]
    exact h.kept rfl (Or.inr rfl) nofun
  | goOn targets =>
    unfold TimerPlace.goOn
    split
    · exact h.kept rfl (Or.inl rfl) nofun
    · exact h.kept rfl (Or.inr rfl) nofun
  | count targets => exact h.counted rfl
  | raise checks targets =>
    rcases TimerPlace.raise_cases checks targets c₀ with ⟨c₁, ha, hc⟩ | ⟨-, hc⟩ <;> rw [hc]
    · obtain ⟨-, rfl⟩ := Coordinator.addSignals?_eq_some.mp ha
      exact h.kept rfl (Or.inr rfl) nofun
    · exact h.kept rfl (Or.inr rfl) nofun
  | _ => exact h.kept rfl (Or.inr rfl) nofun

/-- A step of another task. -/
theorem frame (h : Rearmed k bound s) (hs : SameTimer s s') (hnow : s.now ≤ s'.now) :
    Rearmed k bound s' where
  seen := hs.phaseChanged.trans h.seen
  targets := by
    rw [hs.timer]
    exact h.targets
  checks checks t hr hc := Nat.le_trans (h.checks checks t (hs.timer ▸ hr) hc) hnow

/-- **It stays so until the phase changes.** -/
theorem step (h : Rearmed k bound s) (hstep : Step p w s e s') (he : e.isChange = false) :
    Rearmed k bound s' := by
  have hnow := hstep.now_le
  have hsame := hstep.sameTimer
  cases hstep with
  | setPhase _ => exact nomatch he
  | keepPhase _ => exact h
  | tellTimer _ => exact ⟨h.seen, h.targets, h.checks⟩
  | time hm => exact h.timed hm
  | _ => exact h.frame (hsame rfl) hnow

end Rearmed

/-! ## 3. Checks that come early -/

/-- **How a check of a kind may come early** after the timer was resumed in the state `s`. -/
inductive Excuse (k : Check) (s : Crew) (events : List (Instant × Event)) : Prop where
  /-- It was there before, and nothing was handed out since. -/
  | pending : s.coordinator.signals.has k = true → delivered events = [] → Excuse k s events
  /-- Another task raised it. -/
  | emitted {x : Instant × Event} {checks : Signals} : x ∈ events → x.2 = .emitted checks true →
      checks.has k = true → Excuse k s events
  /-- The timer raised it before it took notice of the change. -/
  | unnoticed {earlier later : List (Instant × Event)} {x : Instant × Event} {checks : Signals} :
      events = earlier ++ x :: later → x.2 = .ticked checks true → checks.has k = true →
      (∀ y ∈ earlier, y.2 ≠ .noticed) → Excuse k s events

theorem Excuse.append {x : Instant × Event} (h : Excuse k s events)
    (hx : x.2.delivered? = none) : Excuse k s (events ++ [x]) := by
  cases h with
  | pending hs hd =>
    refine .pending hs ?_
    simp only [delivered] at hd ⊢
    simp [List.filterMap_append, hd, hx]
  | emitted hm he hc => exact .emitted (List.mem_append_left _ hm) he hc
  | @unnoticed earlier later y checks hsplit he hc hn =>
    have hsplit' : events ++ [x] = earlier ++ y :: (later ++ [x]) := by
      rw [hsplit, List.append_assoc, List.cons_append]
    exact .unnoticed hsplit' he hc hn

/-- After a change that resumed the timer in the state `s`, with `events` since. -/
structure Resumed (k : Check) (bound : Instant) (s : Crew) (events : List (Instant × Event))
    (s' : Crew) : Prop where
  rearmed : (∃ x ∈ events, x.2 = .noticed) → Rearmed k bound s'
  excused : s'.coordinator.signals.has k = true → bound ≤ s'.now ∨ Excuse k s events

namespace Resumed

theorem step {s₂ s₃ : Crew} (h : Resumed k bound s events s₂) (hstep : Step p w s₂ e s₃)
    (he : e.isChange = false) (hk : p.interval? k = some interval)
    (hbound : bound ≤ s₂.now.add interval) : Resumed k bound s (events ++ [(s₂.now, e)]) s₃ where
  rearmed := by
    rintro ⟨x, hx, hn⟩
    rcases List.mem_append.mp hx with hx | hx
    · exact (h.rearmed ⟨x, hx, hn⟩).step hstep he
    · obtain rfl := List.mem_singleton.mp hx
      obtain rfl : e = .noticed := hn
      exact .of_noticed hstep hk hbound
  excused hs := by
    rcases hstep.has hs with ⟨hold, hd⟩ | hraised
    · rcases h.excused hold with hle | hex
      · exact Or.inl (Nat.le_trans hle hstep.now_le)
      · exact Or.inr (hex.append hd)
    · have hlast : (s₂.now, e) ∈ events ++ [(s₂.now, e)] :=
        List.mem_append_right _ (List.mem_singleton_self _)
      cases e with
      | emitted checks accepted =>
        obtain ⟨rfl, hc⟩ : accepted = true ∧ checks.has k = true := by
          simpa [Event.raises] using hraised
        exact Or.inr (.emitted hlast rfl hc)
      | ticked checks accepted =>
        obtain ⟨rfl, hc⟩ : accepted = true ∧ checks.has k = true := by
          simpa [Event.raises] using hraised
        by_cases hn : ∃ x ∈ events, x.2 = .noticed
        · obtain ⟨targets, hplace⟩ := hstep.of_ticked
          have hle : bound ≤ s₂.now := (h.rearmed hn).checks checks targets hplace hc
          exact Or.inl (Nat.le_trans hle hstep.now_le)
        · exact Or.inr (.unnoticed rfl rfl hc fun y hy hyn => hn ⟨y, hy, hyn⟩)
      | _ => exact absurd hraised Bool.false_ne_true

theorem steps (hset : Step p w s (.phaseSet .run true) s₁) (run : Steps p w s₁ events s')
    (he : ∀ x ∈ events, x.2.isChange = false) (hk : p.interval? k = some interval) :
    Resumed k (s.now.add interval) s events s' := by
  have hsame : s₁.coordinator.signals = s.coordinator.signals := by
    obtain ⟨c, hc, rfl⟩ := hset.of_phaseSet
    obtain ⟨-, rfl⟩ := Coordinator.changePhase?_eq_some.mp hc
    rfl
  induction run with
  | refl =>
    refine ⟨?_, fun hs => Or.inr (.pending (hsame ▸ hs) rfl)⟩
    rintro ⟨x, hx, -⟩
    exact nomatch hx
  | @step events e s₂ s₃ run hstep ih =>
    have hnow : s.now ≤ s₂.now := Nat.le_trans hset.now_le run.now_le
    refine (ih fun x hx => he x (List.mem_append_left _ hx)).step hstep ?_ hk ?_
    · exact he _ (List.mem_append_right _ (List.mem_singleton_self _))
    · exact Nat.add_le_add_right hnow _

end Resumed

/-- **Only what was raised before the timer took notice comes early.**  Whatever steps are taken in
whatever order: let the timer be resumed, with no change of phase after it.  A check of a kind that
is handed out before a whole interval has passed was there when the timer was resumed and is the
first to be handed out, or was raised by another task, or was raised by the timer before it took
notice. -/
theorem early_check_excused (hset : Step p w s (.phaseSet .run true) s₁)
    (run : Steps p w s₁ after s') (hlast : ∀ x ∈ after, x.2.isChange = false)
    (hk : p.interval? k = some interval) :
    ∀ earlier x later signals, after = earlier ++ x :: later → x.2.delivered? = some signals →
      signals.has k = true → x.1 < s.now.add interval → Excuse k s earlier := by
  rintro earlier x later signals rfl hd hc hlt
  obtain ⟨s₂, s₃, hbefore, hnow, hstep, -⟩ := run.split
  have hresumed := Resumed.steps hset hbefore
    (fun y hy => hlast y (List.mem_append_left _ hy)) hk
  obtain rfl := hstep.delivered hd
  rcases hresumed.excused hc with hle | hex
  · rw [hnow] at hlt
    exact absurd hle (Nat.not_le.mpr hlt)
  · exact hex

/-- The timer finds a target due and the notification of the change at once, and goes on with the
target. -/
theorem early_check_excused_due : ∃ s s₁ s' : Crew, ∃ earlier : List (Instant × Event),
    Step ⟨.ofMillis 1000, none⟩ 0 s (.phaseSet .run true) s₁ ∧
    Steps ⟨.ofMillis 1000, none⟩ 0 s₁
      (earlier ++ [(.ofMillis 1000, .taken ⟨false, true, false⟩)]) s' ∧
    s.now = .ofMillis 1000 ∧ Excuse .health s earlier := by
  have hset := act?_step (p := ⟨.ofMillis 1000, none⟩) (w := 0) (a := .setPhase .run)
    (s := ⟨.ofMillis 1000, ⟨.pause, false, .none, ⟨false, [0], []⟩, .empty⟩,
      .parked ⟨.ofMillis 1000, none⟩, .away, [], 0⟩) rfl
  have hafter := (play_steps (p := ⟨.ofMillis 1000, none⟩) (w := 0)
    (s := ⟨.ofMillis 1000, ⟨.run, true, .none, ⟨false, [0], []⟩, .empty⟩,
      .parked ⟨.ofMillis 1000, none⟩, .away, [.run], 0⟩)
    [.tellTimer .run, .expire, .time, .time, .time] rfl).step
      (.take (show _ = some (⟨false, true, false⟩, _) from rfl))
  exact ⟨_, _, _, _, hset, hafter, rfl,
    early_check_excused hset hafter (by decide) (k := .health) rfl _ _ [] _ rfl rfl rfl (by decide)⟩

/-- From the state `s` the timer is resumed, no phase is changed after that, and a check of a kind
is handed out before a whole interval has passed. -/
def HandsOutEarly (p : TimerPlan) (w : WaiterId) (k : Check) (s : Crew) : Prop :=
  ∃ s₁ s' after interval, Step p w s (.phaseSet .run true) s₁ ∧ Steps p w s₁ after s' ∧
    (∀ x ∈ after, x.2.isChange = false) ∧ p.interval? k = some interval ∧
    ∃ x ∈ after, x.1 < s.now.add interval ∧
      ∃ signals, x.2.delivered? = some signals ∧ signals.has k = true

/-- **Stale checks are handed out**: one that was raised before the pause, and one whose target
falls due at the moment at which the timer is resumed. -/
theorem stale_check_handed_out :
    (∃ history s, Steps ⟨.ofMillis 1000, none⟩ 0
        (Crew.initial ⟨.ofMillis 1000, none⟩ .start) history s ∧
      s.coordinator.signals.has .health = true ∧
      HandsOutEarly ⟨.ofMillis 1000, none⟩ 0 .health s) ∧
    ∃ history s, Steps ⟨.ofMillis 1000, none⟩ 0
        (Crew.initial ⟨.ofMillis 1000, none⟩ .start) history s ∧
      s.coordinator.signals = .none ∧ s.timer = .parked ⟨s.now, none⟩ ∧
      HandsOutEarly ⟨.ofMillis 1000, none⟩ 0 .health s := by
  constructor
  · have hpaused := play_steps (p := ⟨.ofMillis 1000, none⟩) (w := 0)
      (s := Crew.initial ⟨.ofMillis 1000, none⟩ .start)
      [.time, .pass (.ofMillis 1000), .time, .time, .time, .time, .time, .pass (.ofMillis 1500),
        .setPhase .pause, .tellTimer .pause, .time, .time, .time, .pass (.ofMillis 1600)] rfl
    refine ⟨_, _, hpaused, rfl, _, _, _, _, act?_step (a := .setPhase .run) rfl,
      play_steps [.take] rfl, by decide, rfl, _, List.mem_singleton_self _, by decide,
      _, rfl, rfl⟩
  · have hpaused := play_steps (p := ⟨.ofMillis 1000, none⟩) (w := 0)
      (s := Crew.initial ⟨.ofMillis 1000, none⟩ .start)
      [.time, .setPhase .pause, .tellTimer .pause, .time, .time, .time, .pass (.ofMillis 1000)] rfl
    refine ⟨_, _, hpaused, rfl, rfl, _, _, _, _, act?_step (a := .setPhase .run) rfl,
      play_steps [.tellTimer .run, .expire, .time, .time, .time, .take] rfl, by decide,
      rfl, (.ofMillis 1000, .taken ⟨false, true, false⟩), by decide, by decide, _, rfl, rfl⟩

end Crew
end ServerWarden
