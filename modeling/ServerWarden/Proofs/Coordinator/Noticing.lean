/-
# No change of phase escapes the timer

A change of phase sets the phase and a mark, and then notifies the timer.  A permit may belong to an
older change whose mark is gone, several changes may share one permit, and a timer that finds both a
permit and a due target may go on with the target.

`Watchful` is what no step breaks: while the mark is set, the timer is about to look at it, or has a
wake, or the call that set the present phase is still to notify it.  A wake is only used up on the
way to a look, and a timer that goes on with a target passes on what it was handed.

Once the last phase is set and told, `Ending` holds for good: the timer stands nearer to its end
after each of its steps (`TimerPlace.stepsLeft`), the third step after the present one is its last,
and none of them waits.  From the moment at which the last phase is set nothing raised is accepted.
-/
import ServerWarden.Proofs.Coordinator.Crew

namespace ServerWarden

/-! ## 1. Steps of the timer and the phase -/

namespace TimerPlace

variable {p : TimerPlan} {w : WaiterId} {now : Instant} {c c' : Coordinator}
  {place place' : TimerPlace}

/-- Only a timer that waits or is about to is concerned with notifications. -/
theorem isParked_count (p : TimerPlan) (targets : Targets) (now : Instant) :
    (count p targets now).isParked = false := by
  unfold count
  cases targets.fire? p now with
  | none => rfl
  | some r =>
    dsimp only
    split <;> rfl

theorem isParked_goOn (targets : Targets) (c : Coordinator) :
    (goOn targets c).isParked = false := by
  unfold goOn
  split <;> rfl

theorem isParked_start (p : TimerPlan) (now : Instant) : (start p now).isParked = false := by
  unfold start
  split <;> rfl

/-- The timer changes no phase. -/
theorem Moves.phase_eq (h : place.Moves p w now c place' c') : c'.phase = c.phase := by
  cases h with
  | choose targets =>
    rcases choose_cases targets c w with ⟨n, -, hc⟩ | ⟨-, hc⟩ <;> rw [hc]
  | notice targets =>
    cases hch : c.phaseChanged with
    | false => rw [notice_of_unchanged targets hch]
    | true => rw [notice_of_changed targets hch]
  | raise checks targets =>
    rcases raise_cases checks targets c with ⟨c₁, ha, hc⟩ | ⟨-, hc⟩
    · rw [hc]
      obtain ⟨-, rfl⟩ := Coordinator.addSignals?_eq_some.mp ha
      rfl
    · rw [hc]
  | _ => rfl

theorem not_moves_of_hasEnded (h : place.Moves p w now c place' c') :
    place.hasEnded = false := by
  cases h <;> rfl

/-- How many steps a timer takes at most before it ends, in the last phase. -/
def stepsLeft : TimerPlace → Nat
  | .finished | .failed => 0
  | .notified _ | .due _ => 1
  | .choosing _ | .parked _ => 2
  | .raising _ _ | .ringing _ => 3
  | .counting _ => 4

theorem stepsLeft_eq_zero : place.stepsLeft = 0 ↔ place.hasEnded = true := by
  cases place <;> simp [stepsLeft, hasEnded]

theorem stepsLeft_le (place : TimerPlace) : place.stepsLeft ≤ 4 := by
  cases place <;> simp [stepsLeft]

end TimerPlace

namespace Crew

variable {p : TimerPlan} {w : WaiterId} {s s₀ s' : Crew} {e : Event} {start : Instant}
  {history later : List (Instant × Event)}

/-! ## 2. What no step breaks -/

/-- **While the mark of a change is set, the timer is about to look at it, or has a wake**, or one
is still to come from the call that set the phase. -/
structure Watchful (w : WaiterId) (s : Crew) : Prop where
  tends : s.coordinator.timerWake.Tends w s.timer.isParked
  awake : s.coordinator.phaseChanged = true → s.timer.hasEnded = false →
    s.coordinator.phase ∈ s.changing ∨ s.timer.isNotified = true ∨
      s.coordinator.timerWake.IsAwake
  last : s.coordinator.phase = .stop →
    s.coordinator.phaseChanged = true ∨ s.timer.hasEnded = true

namespace Watchful

theorem initial : Watchful w (initial p start) where
  tends := by
    have hnot : (Crew.initial p start).timer.isParked = false := TimerPlace.isParked_start p start
    rw [hnot]
    exact .idle false
  awake h := nomatch h
  last h := nomatch h

/-- A step that leaves the timer and what it looks at alone. -/
theorem frame (h : Watchful w s) (hs : SameTimer s s') : Watchful w s' where
  tends := by
    rw [hs.timerWake, hs.timer]
    exact h.tends
  awake := by
    rw [hs.timerWake, hs.phase, hs.phaseChanged, hs.timer, hs.changing]
    exact h.awake
  last := by
    rw [hs.phase, hs.phaseChanged, hs.timer]
    exact h.last

/-- A step of the timer from one place where it does not wait to another, which neither looks at
the mark nor uses up a wake. -/
theorem goes (h : Watchful w s) {timer : TimerPlace} {c : Coordinator}
    (hn : c.timerWake = s.coordinator.timerWake) (hp : c.phase = s.coordinator.phase)
    (hc : c.phaseChanged = s.coordinator.phaseChanged) (hfrom : s.timer.isParked = false)
    (hnot : s.timer.isNotified = false) (hgoing : s.timer.hasEnded = false)
    (hto : timer.isParked = false) : Watchful w { s with timer, coordinator := c } where
  tends := by
    rw [hn, hto, ← hfrom]
    exact h.tends
  awake := by
    intro hch _
    rcases h.awake (hc ▸ hch) hgoing with ha | ha | ha
    · exact Or.inl (by rwa [hp])
    · exact absurd (hnot.symm.trans ha) Bool.false_ne_true
    · exact Or.inr (Or.inr (by rwa [hn]))
  last := by
    intro hs
    rcases h.last (hp ▸ hs) with ha | ha
    · exact Or.inl (hc.trans ha)
    · exact absurd (hgoing.symm.trans ha) Bool.false_ne_true

/-- A step of the timer. -/
theorem timed (h : Watchful w s) {timer : TimerPlace} {c : Coordinator}
    (hm : s.timer.Moves p w s.now s.coordinator timer c) :
    Watchful w { s with timer, coordinator := c } := by
  obtain ⟨now, c₀, place, waiter, changing, raising⟩ := s
  have htends := h.tends
  cases hm with
  | choose targets =>
    rcases TimerPlace.choose_cases targets c₀ w with ⟨n, hu, hc⟩ | ⟨hu, hc⟩
    · rw [hc]
      exact ⟨htends.usePermit? hu, fun _ _ => Or.inr (Or.inl rfl), h.last⟩
    · -- a timer comes to wait only if it found no wake
      rw [hc]
      obtain ⟨hparked, hnone⟩ := htends.enroll hu
      refine ⟨hparked, fun hch _ => ?_, h.last⟩
      rcases h.awake hch rfl with ha | ha | ha
      · exact Or.inl ha
      · exact nomatch ha
      · exact absurd ha hnone
  | overdue _ => exact h.goes rfl rfl rfl rfl rfl rfl rfl
  | resume hc => exact ⟨htends.resume hc, fun _ _ => Or.inr (Or.inl rfl), h.last⟩
  | expire _ =>
    obtain ⟨hleft, hpassed⟩ := htends.abandon
    refine ⟨hleft, fun hch _ => ?_, h.last⟩
    rcases h.awake hch rfl with ha | ha | ha
    · exact Or.inl ha
    · exact nomatch ha
    · exact Or.inr (Or.inr (hpassed ha))
  | notice targets =>
    cases hch : c₀.phaseChanged with
    | false =>
      rw [TimerPlace.notice_of_unchanged targets hch]
      exact ⟨htends, fun ha => absurd (hch.symm.trans ha) Bool.false_ne_true, h.last⟩
    | true =>
      rw [TimerPlace.notice_of_changed targets hch]
      refine ⟨?_, fun ha => (nomatch ha), fun hs => Or.inr ?_⟩
      · have hnot : (if c₀.phase = .stop then .finished else TimerPlace.start p now).isParked
            = false := by
          split
          · rfl
          · exact TimerPlace.isParked_start p now
        dsimp only
        rw [hnot]
        exact htends
      · dsimp only at hs ⊢
        rw [if_pos hs]
        rfl
  | goOn targets =>
    exact h.goes rfl rfl rfl rfl rfl rfl (TimerPlace.isParked_goOn targets _)
  | count targets =>
    exact h.goes rfl rfl rfl rfl rfl rfl (TimerPlace.isParked_count p targets _)
  | raise checks targets =>
    rcases TimerPlace.raise_cases checks targets c₀ with ⟨c₁, ha, hc⟩ | ⟨-, hc⟩
    · rw [hc]
      obtain ⟨-, rfl⟩ := Coordinator.addSignals?_eq_some.mp ha
      exact h.goes rfl rfl rfl rfl rfl rfl rfl
    · rw [hc]
      exact h.goes rfl rfl rfl rfl rfl rfl rfl
  | ring targets => exact h.goes rfl rfl rfl rfl rfl rfl rfl

/-- **No step breaks it.** -/
theorem step (h : Watchful w s) (hstep : Step p w s e s') : Watchful w s' := by
  have hsame := hstep.sameTimer
  cases hstep with
  | setPhase hc =>
    obtain ⟨-, rfl⟩ := Coordinator.changePhase?_eq_some.mp hc
    exact ⟨h.tends, fun _ _ => Or.inl List.mem_cons_self, fun _ => Or.inl rfl⟩
  | keepPhase _ => exact h
  | tellTimer _ =>
    exact ⟨h.tends.notifyOne, fun _ _ => Or.inr (Or.inr (Notify.isAwake_notifyOne _)), h.last⟩
  | time hm => exact h.timed hm
  | _ => exact h.frame (hsame rfl)

theorem steps (run : Steps p w (Crew.initial p start) history s) : Watchful w s :=
  run.keeps (Q := fun _ => True) (fun hstep _ h => h.step hstep) (fun _ _ => trivial) initial

end Watchful

/-! ## 3. The last phase -/

/-- A raise was accepted. -/
def Event.isAccepted : Event → Bool
  | .emitted _ accepted | .ticked _ accepted => accepted
  | _ => false

/-- The last phase stays, and nothing raised in it is accepted. -/
theorem Step.of_stop (hstep : Step p w s e s') (hs : s.coordinator.phase = .stop) :
    s'.coordinator.phase = .stop ∧ e.isAccepted = false := by
  cases hstep with
  | setPhase hc => exact absurd hs (Coordinator.changePhase?_eq_some.mp hc).1.1
  | emit ha =>
    have hrun := (Coordinator.addSignals?_eq_some.mp ha).1
    exact nomatch hs.symm.trans hrun
  | take ht =>
    obtain ⟨-, -, rfl⟩ := Coordinator.takeSignals?_eq_some.mp ht
    exact ⟨hs, rfl⟩
  | wait hm => exact ⟨hm.timer.1.trans hs, rfl⟩
  | time hm =>
    refine ⟨hm.phase_eq.trans hs, ?_⟩
    unfold deed
    split
    · split <;> rfl
    · simp [Event.isAccepted, hs]
    · rfl
  | _ => exact ⟨hs, rfl⟩

theorem Steps.of_stop (run : Steps p w s later s') (hs : s.coordinator.phase = .stop) :
    s'.coordinator.phase = .stop ∧ ∀ x ∈ later, x.2.isAccepted = false := by
  induction run with
  | refl => exact ⟨hs, fun _ hx => absurd hx List.not_mem_nil⟩
  | step _ hstep ih =>
    obtain ⟨hs', hquiet⟩ := hstep.of_stop ih.1
    refine ⟨hs', fun x hx => ?_⟩
    rcases List.mem_append.mp hx with hx | hx
    · exact ih.2 x hx
    · rw [List.mem_singleton.mp hx]
      exact hquiet

/-- A target of a timer that had not looked at the phase before was beyond what a clock holds. -/
def OutOfRange (p : TimerPlan) (s : Crew) : Prop :=
  s.timer = .failed ∨ ∃ targets now, s.timer = .counting targets ∧ targets.fire? p now = none

/-- **The last phase is set and told**, since `s₀` at least. -/
structure Ending (p : TimerPlan) (w : WaiterId) (s₀ s : Crew) : Prop where
  watchful : Watchful w s
  phase : s.coordinator.phase = .stop
  told : .stop ∉ s.changing
  /-- It counts only what it was about to count then. -/
  counting : ∀ targets, s.timer = .counting targets → s₀.timer = .counting targets
  failed : s.timer = .failed → OutOfRange p s₀

namespace Ending

theorem awake (h : Ending p w s₀ s) (hgoing : s.timer.hasEnded = false) :
    s.coordinator.phaseChanged = true ∧
      (s.timer.isNotified = true ∨ s.coordinator.timerWake.IsAwake) := by
  have hch : s.coordinator.phaseChanged = true := by
    rcases h.watchful.last h.phase with hch | hended
    · exact hch
    · exact absurd (hgoing.symm.trans hended) Bool.false_ne_true
  refine ⟨hch, ?_⟩
  rcases h.watchful.awake hch hgoing with hm | ha
  · exact absurd (h.phase ▸ hm) h.told
  · exact ha

/-- What the timer does in the last phase: it stands nearer to its end, and does not wait. -/
theorem timed (h : Ending p w s₀ s) {timer : TimerPlace} {c : Coordinator}
    (hm : s.timer.Moves p w s.now s.coordinator timer c) :
    timer.stepsLeft + 1 ≤ s.timer.stepsLeft ∧ timer.isParked = false ∧
      (∀ targets, timer ≠ .counting targets) ∧
      (timer = .failed → ∃ targets, s.timer = .counting targets ∧
        targets.fire? p s.now = none) := by
  obtain ⟨hch, hawake⟩ := h.awake (TimerPlace.not_moves_of_hasEnded hm)
  have hphase := h.phase
  have htends := h.watchful.tends
  obtain ⟨now, c₀, place, waiter, changing, raising⟩ := s
  cases hm with
  | choose targets =>
    rcases TimerPlace.choose_cases targets c₀ w with ⟨n, -, hc⟩ | ⟨hu, hc⟩
    · rw [hc]
      exact ⟨Nat.le_refl _, rfl, nofun, nofun⟩
    · rcases hawake with ha | ha
      · exact nomatch ha
      · exact absurd ha (htends.enroll hu).2
  | overdue _ => exact ⟨Nat.le_refl _, rfl, nofun, nofun⟩
  | resume _ => exact ⟨Nat.le_refl _, rfl, nofun, nofun⟩
  | expire _ => exact ⟨Nat.le_refl _, rfl, nofun, nofun⟩
  | notice targets =>
    have hn : TimerPlace.notice p targets now c₀ = _ := TimerPlace.notice_of_changed targets hch
    rw [if_pos hphase] at hn
    dsimp only
    rw [hn]
    exact ⟨Nat.le_refl _, rfl, nofun, nofun⟩
  | goOn targets =>
    have hn : TimerPlace.goOn targets c₀ = .finished := if_pos hphase
    dsimp only
    rw [hn]
    exact ⟨Nat.le_refl _, rfl, nofun, nofun⟩
  | count targets =>
    dsimp only [TimerPlace.count]
    cases hf : targets.fire? p now with
    | none =>
      exact ⟨by simp [TimerPlace.stepsLeft], rfl, nofun, fun _ => ⟨targets, rfl, hf⟩⟩
    | some r =>
      dsimp only
      split
      · exact ⟨Nat.le_refl _, rfl, nofun, nofun⟩
      · exact ⟨by simp [TimerPlace.stepsLeft], rfl, nofun, nofun⟩
  | raise checks targets =>
    rcases TimerPlace.raise_cases checks targets c₀ with ⟨c₁, ha, -⟩ | ⟨-, hc⟩
    · have hrun := (Coordinator.addSignals?_eq_some.mp ha).1
      exact nomatch hphase.symm.trans hrun
    · rw [hc]
      exact ⟨Nat.le_refl _, rfl, nofun, nofun⟩
  | ring targets => exact ⟨Nat.le_refl _, rfl, nofun, nofun⟩

theorem step (h : Ending p w s₀ s) (hstep : Step p w s e s') :
    Ending p w s₀ s' ∧ s'.timer.stepsLeft + (if e.ofTimer then 1 else 0) ≤ s.timer.stepsLeft ∧
      (s.timer.isParked = false ∨ e.ofTimer = true → s'.timer.isParked = false) := by
  have hwatchful := h.watchful.step hstep
  have hphase := (hstep.of_stop h.phase).1
  have hstays (htimer : s'.timer = s.timer) (htold : .stop ∉ s'.changing)
      (he : e.ofTimer = false) : Ending p w s₀ s' ∧
      s'.timer.stepsLeft + (if e.ofTimer then 1 else 0) ≤ s.timer.stepsLeft ∧
      (s.timer.isParked = false ∨ e.ofTimer = true → s'.timer.isParked = false) := by
    rw [he, htimer]
    refine ⟨⟨hwatchful, hphase, htold, ?_, ?_⟩, Nat.le_refl _, ?_⟩
    · rw [htimer]
      exact h.counting
    · rw [htimer]
      exact h.failed
    · exact fun ho => ho.elim id Bool.noConfusion
  cases hstep with
  | setPhase hc => exact absurd h.phase (Coordinator.changePhase?_eq_some.mp hc).1.1
  | tellTimer _ => exact hstays rfl (fun hm => h.told (List.mem_of_mem_erase hm)) rfl
  | time hm =>
    obtain ⟨hless, hparked, hcounting, hfailed⟩ := h.timed hm
    rw [ofTimer_deed]
    refine ⟨⟨hwatchful, hphase, h.told, ?_, ?_⟩, hless, fun _ => hparked⟩
    · exact fun targets ht => absurd ht (hcounting targets)
    · intro ht
      obtain ⟨targets, hc, hf⟩ := hfailed ht
      exact Or.inr ⟨targets, s.now, h.counting targets hc, hf⟩
  | _ => exact hstays rfl h.told rfl

theorem steps (h : Ending p w s₀ s) (run : Steps p w s later s') :
    Ending p w s₀ s' ∧ s'.timer.stepsLeft + later.countP (·.2.ofTimer) ≤ s.timer.stepsLeft ∧
      (s.timer.isParked = false ∨ 0 < later.countP (·.2.ofTimer) → s'.timer.isParked = false) := by
  induction run with
  | refl => exact ⟨h, Nat.le_refl _, fun ho => ho.elim id (fun hn => absurd hn (Nat.lt_irrefl 0))⟩
  | @step earlier e s₁ s₂ _ hstep ih =>
    obtain ⟨hmid, hle, hparked⟩ := ih
    obtain ⟨hend, hle', hparked'⟩ := hmid.step hstep
    rw [List.countP_append, List.countP_singleton]
    dsimp only
    refine ⟨hend, by omega, fun ho => ?_⟩
    apply hparked'
    rcases ho with ho | ho
    · exact Or.inl (hparked (Or.inl ho))
    · cases he : e.ofTimer with
      | true => exact Or.inr rfl
      | false =>
        rw [he, if_neg Bool.false_ne_true, Nat.add_zero] at ho
        exact Or.inl (hparked (Or.inr ho))

/-- The timer can take its next step at once. -/
theorem goes_on (h : Ending p w s₀ s) (hgoing : s.timer.hasEnded = false) :
    (s.timer.step? p w s.now s.coordinator).isSome = true := by
  obtain ⟨-, hawake⟩ := h.awake hgoing
  have htends := h.watchful.tends
  obtain ⟨now, c, place, waiter, changing, raising⟩ := s
  cases place with
  | parked targets =>
    rcases hawake with ha | ha
    · exact absurd ha Bool.false_ne_true
    · simp [TimerPlace.step?, htends.isChosen ha]
  | finished | failed => exact absurd hgoing.symm Bool.false_ne_true
  | _ => rfl

end Ending

/-- **No change of phase escapes the timer, and the last one ends it.**  Whatever steps were taken
in whatever order: while a change is marked, and the call that set the phase has notified the timer,
a timer that is parked was handed a wake.  Once the last phase is set and told, the timer is never
parked again after its next step; until it has ended it can take a step at once, and it takes at
most four.  Only a sum that no clock holds, of targets it was about to count before, ends it
otherwise than by the phase.  Nothing raised in the last phase is accepted. -/
theorem phase_change_noticed (run : Steps p w (Crew.initial p start) history s) :
    (s.coordinator.phaseChanged = true → s.coordinator.phase ∉ s.changing →
      s.timer.isParked = true → s.coordinator.timerWake.isChosen w = true) ∧
    (s.coordinator.phase = .stop → .stop ∉ s.changing → ∀ later s', Steps p w s later s' →
      (0 < later.countP (·.2.ofTimer) → s'.timer.isParked = false) ∧
      (s'.timer.hasEnded = true ∨ later.countP (·.2.ofTimer) < 4 ∧
        (s'.timer.step? p w s'.now s'.coordinator).isSome = true) ∧
      (s'.timer = .failed → OutOfRange p s)) ∧
    (s.coordinator.phase = .stop → ∀ later s', Steps p w s later s' →
      ∀ x ∈ later, x.2.isAccepted = false) := by
  have hwatchful : Watchful w s := .steps run
  refine ⟨?_, ?_, fun hs later s' run' => (run'.of_stop hs).2⟩
  · intro hch htold hparked
    have htends := hwatchful.tends
    rw [hparked] at htends
    have hplace : s.timer.hasEnded = false ∧ s.timer.isNotified = false := by
      cases ht : s.timer with
      | parked targets => exact ⟨rfl, rfl⟩
      | _ =>
        rw [ht] at hparked
        exact absurd hparked Bool.false_ne_true
    rcases hwatchful.awake hch hplace.1 with ha | ha | ha
    · exact absurd ha htold
    · exact absurd (hplace.2.symm.trans ha) Bool.false_ne_true
    · exact htends.isChosen ha
  · intro hs htold later s' run'
    have hending : Ending p w s s :=
      ⟨hwatchful, hs, htold, fun _ => id, fun hf => Or.inl hf⟩
    obtain ⟨hend, hle, hparked⟩ := hending.steps run'
    refine ⟨fun hn => hparked (Or.inr hn), ?_, hend.failed⟩
    cases hgoing : s'.timer.hasEnded with
    | true => exact Or.inl rfl
    | false =>
      refine Or.inr ⟨?_, hend.goes_on hgoing⟩
      have hmore : s'.timer.stepsLeft ≠ 0 := by
        intro hz
        rw [TimerPlace.stepsLeft_eq_zero.mp hz] at hgoing
        exact nomatch hgoing
      have hbound := s.timer.stepsLeft_le
      omega

/-- A stop that follows a pause which the timer did not see: it is woken once for both, finds the
last phase, and has a permit to spare. -/
theorem phase_change_noticed_stop : ∃ history s, Steps ⟨.ofSecs 60, none⟩ 0
      (Crew.initial ⟨.ofSecs 60, none⟩ .start) history s ∧
    s.timer.isParked = true ∧ s.coordinator.timerWake = ⟨true, [], [0]⟩ ∧
    s.coordinator.timerWake.isChosen 0 = true ∧
    ∀ later s', Steps ⟨.ofSecs 60, none⟩ 0 s later s' →
      (0 < later.countP (·.2.ofTimer) → s'.timer.isParked = false) ∧
      (s'.timer.hasEnded = true ∨ later.countP (·.2.ofTimer) < 4 ∧
        (s'.timer.step? ⟨.ofSecs 60, none⟩ 0 s'.now s'.coordinator).isSome = true) ∧
      (s'.timer = .failed → OutOfRange ⟨.ofSecs 60, none⟩ s) := by
  have hplay := play_steps (p := ⟨.ofSecs 60, none⟩) (w := 0)
    (s := Crew.initial ⟨.ofSecs 60, none⟩ .start)
    [.time, .setPhase .pause, .tellTimer .pause, .setPhase .stop, .tellTimer .stop] rfl
  obtain ⟨hwoken, hends, -⟩ := phase_change_noticed hplay
  exact ⟨_, _, hplay, rfl, rfl, hwoken rfl (by decide) rfl, hends rfl (by decide)⟩

end Crew
end ServerWarden
