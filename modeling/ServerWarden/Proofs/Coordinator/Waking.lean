/-
# Signals that are there wake the task that waits for them

Flags and wake are two things that change at two moments: a raise first sets its flags and then
notifies, and a task that waits first finds no flags and then waits.  In between anything may
happen: the flags may be taken by another, an older permit may still be there, and several raises
may be told in one wake.

`Attended` is what no step breaks.  If flags are set and nothing that set flags is still to notify,
then a task that waits, or is about to, has a wake.  From such a state on `Roused` holds until the
signals are handed out: the task has a wake or is about to look, and the flags are still there
(`Roused.step`).  So it gets them by its second step (`Roused.steps`), unless another takes them.
-/
import ServerWarden.Proofs.Coordinator.Crew

namespace ServerWarden

/-! ## 1. More signals -/

/-- Every flag of `a` is one of `b`. -/
structure Signals.Within (a b : Signals) : Prop where
  stop : a.stop = true → b.stop = true
  healthCheck : a.healthCheck = true → b.healthCheck = true
  updateCheck : a.updateCheck = true → b.updateCheck = true

namespace Signals.Within

variable {a b d : Signals} {c c' : Coordinator} {checks : Signals}

theorem refl (a : Signals) : a.Within a := ⟨id, id, id⟩

theorem trans (h : a.Within b) (h' : b.Within d) : a.Within d :=
  ⟨h'.stop ∘ h.stop, h'.healthCheck ∘ h.healthCheck, h'.updateCheck ∘ h.updateCheck⟩

theorem any (h : a.Within b) (ha : a.any = true) : b.any = true := by
  simp only [Signals.any, Bool.or_eq_true] at ha ⊢
  rcases ha with (ha | ha) | ha
  · exact Or.inl (Or.inl (h.stop ha))
  · exact Or.inl (Or.inr (h.healthCheck ha))
  · exact Or.inr (h.updateCheck ha)

theorem addSignals? (h : c.addSignals? checks = some c') : c.signals.Within c'.signals := by
  obtain ⟨-, rfl⟩ := Coordinator.addSignals?_eq_some.mp h
  exact ⟨id, fun hc => by simp [hc], fun hc => by simp [hc]⟩

theorem markStop (c : Coordinator) : c.signals.Within c.markStop.signals :=
  ⟨fun _ => rfl, id, id⟩

end Signals.Within

/-- How many steps a task takes at most until it has signals, if they are there and it has a
wake. -/
def WaiterPlace.stepsLeft : WaiterPlace → Nat
  | .away => 0
  | .looking => 1
  | .turning | .parked => 2

namespace Crew

variable {p : TimerPlan} {w : WaiterId} {s s' : Crew} {e : Event} {start : Instant}
  {history later : List (Instant × Event)} {flags : Signals}

/-! ## 2. What no step breaks -/

/-- Every raise and every request for a stop has notified the supervisor. -/
def RaisesTold (s : Crew) : Prop := s.raising = 0 ∧ s.timer.isRinging = false

/-- The task waits, or found no signals and is about to. -/
def Resting (s : Crew) : Prop := s.waiter = .turning ∨ s.waiter = .parked

/-- **A task that rests while signals are there has a wake**, or one is still to come. -/
structure Attended (w : WaiterId) (s : Crew) : Prop where
  tends : s.coordinator.supervisorWake.Tends w (decide (s.waiter = .parked))
  awake : s.Resting → s.coordinator.signals.any = true → s.RaisesTold →
    s.coordinator.supervisorWake.IsAwake

namespace Attended

theorem initial : Attended w (initial p start) where
  tends := .idle false
  awake := by
    rintro (h | h)
    · exact nomatch h
    · exact nomatch h

/-- A step that neither notifies the supervisor nor moves the task. -/
theorem frame (h : Attended w s)
    (hn : s'.coordinator.supervisorWake = s.coordinator.supervisorWake)
    (hw : s'.waiter = s.waiter)
    (hs : s'.RaisesTold → s'.coordinator.signals.any = true →
      s.RaisesTold ∧ s.coordinator.signals.any = true) : Attended w s' where
  tends := by
    rw [hn, hw]
    exact h.tends
  awake := by
    intro hr ha ht
    obtain ⟨ht', ha'⟩ := hs ht ha
    rw [hn]
    refine h.awake ?_ ha' ht'
    rwa [Resting, ← hw]

/-- A notification. -/
theorem notified (h : Attended w s)
    (hn : s'.coordinator.supervisorWake = s.coordinator.supervisorWake.notifyOne)
    (hw : s'.waiter = s.waiter) : Attended w s' where
  tends := by
    rw [hn, hw]
    exact h.tends.notifyOne
  awake _ _ _ := by
    rw [hn]
    exact Notify.isAwake_notifyOne _

/-- A step of the task itself. -/
theorem waited (h : Attended w s) {got : Option Signals} {waiter : WaiterPlace} {c : Coordinator}
    (hm : s.waiter.Moves w s.coordinator got waiter c) :
    Attended w { s with waiter, coordinator := c } := by
  obtain ⟨now, c₀, timer, place, changing, raising⟩ := s
  have htends := h.tends
  cases hm with
  | find ht =>
    obtain ⟨-, -, rfl⟩ := Coordinator.takeSignals?_eq_some.mp ht
    exact ⟨htends, fun hr => hr.elim nofun nofun⟩
  | miss ht =>
    -- the flags are down at this moment, so nothing is owed to a task that turns to wait
    have hnone : c₀.signals.any = false := Coordinator.takeSignals?_eq_none.mp ht
    exact ⟨htends, fun _ ha => absurd (hnone.symm.trans ha) Bool.false_ne_true⟩
  | pass hp =>
    unfold Coordinator.park at hp
    split at hp <;> cases hp
    next n hu => exact ⟨htends.usePermit? hu, fun hr => hr.elim nofun nofun⟩
  | park hp =>
    unfold Coordinator.park at hp
    split at hp <;> cases hp
    next hu =>
      obtain ⟨hparked, hnot⟩ := htends.enroll hu
      refine ⟨hparked, fun _ ha ht => ?_⟩
      exact absurd (h.awake (Or.inl rfl) ha ht) hnot
  | resume hc => exact ⟨htends.resume hc, fun hr => hr.elim nofun nofun⟩

/-- **No step breaks it.** -/
theorem step (h : Attended w s) (hstep : Step p w s e s') : Attended w s' := by
  cases hstep with
  | pass _ => exact h.frame rfl rfl fun ht ha => ⟨ht, ha⟩
  | setPhase hc =>
    obtain ⟨-, rfl⟩ := Coordinator.changePhase?_eq_some.mp hc
    exact h.frame rfl rfl fun ht ha => ⟨ht, ha⟩
  | keepPhase _ => exact h
  | tellTimer _ => exact h.frame rfl rfl fun ht ha => ⟨ht, ha⟩
  | emit ha =>
    obtain ⟨-, rfl⟩ := Coordinator.addSignals?_eq_some.mp ha
    exact h.frame rfl rfl fun ht _ => absurd ht.1 (Nat.succ_ne_zero _)
  | refuse _ => exact h
  | requestStop => exact h.frame rfl rfl fun ht _ => absurd ht.1 (Nat.succ_ne_zero _)
  | tellSupervisor _ => exact h.notified rfl rfl
  | take ht =>
    obtain ⟨hany, -, rfl⟩ := Coordinator.takeSignals?_eq_some.mp ht
    exact h.frame rfl rfl fun ht _ => ⟨ht, hany⟩
  | call haway => exact ⟨by simpa [haway] using h.tends, fun hr => hr.elim nofun nofun⟩
  | wait hm => exact h.waited hm
  | time hm =>
    rcases hm.supervisor with ⟨-, rfl⟩ | ⟨checks, targets, -, rfl, ha⟩ | ⟨hring, hsame, hwake⟩
    · exact h.notified rfl rfl
    · obtain ⟨-, rfl⟩ := Coordinator.addSignals?_eq_some.mp ha
      exact h.frame rfl rfl fun ht _ => absurd ht.2 Bool.noConfusion
    · exact h.frame hwake rfl fun ht ha => ⟨⟨ht.1, hring⟩, hsame ▸ ha⟩

theorem steps (run : Steps p w (Crew.initial p start) history s) : Attended w s :=
  run.keeps (Q := fun _ => True) (fun hstep _ h => h.step hstep) (fun _ _ => trivial) initial

end Attended

/-! ## 3. From there on the task gets its signals -/

/-- The task looks for signals, or rests with a wake; and the signals are at least some flags. -/
structure Roused (w : WaiterId) (flags : Signals) (s : Crew) : Prop where
  tends : s.coordinator.supervisorWake.Tends w (decide (s.waiter = .parked))
  called : s.waiter ≠ .away
  awake : s.Resting → s.coordinator.supervisorWake.IsAwake
  flags : flags.Within s.coordinator.signals

theorem Attended.roused (h : Attended w s) (hcalled : s.waiter ≠ .away)
    (ha : s.coordinator.signals.any = true) (ht : s.RaisesTold) :
    Roused w s.coordinator.signals s :=
  ⟨h.tends, hcalled, fun hr => h.awake hr ha ht, .refl _⟩

namespace Roused

/-- A step of another task that leaves the wake and the flags. -/
theorem frame (h : Roused w flags s)
    (hn : s'.coordinator.supervisorWake = s.coordinator.supervisorWake)
    (hs : s.coordinator.signals.Within s'.coordinator.signals) (hw : s'.waiter = s.waiter) :
    Roused w flags s' where
  tends := by
    rw [hn, hw]
    exact h.tends
  called := by
    rw [hw]
    exact h.called
  awake hr := by
    rw [hn]
    refine h.awake ?_
    rwa [Resting, ← hw]
  flags := h.flags.trans hs

theorem notified (h : Roused w flags s) :
    Roused w flags { s with coordinator := s.coordinator.wakeSupervisor } where
  tends := h.tends.notifyOne
  called := h.called
  awake _ := Notify.isAwake_notifyOne _
  flags := h.flags

/-- **Its own step brings the task nearer to its signals, or gives them to it.** -/
theorem waited (h : Roused w flags s) (hany : flags.any = true) {got : Option Signals}
    {waiter : WaiterPlace} {c : Coordinator} (hm : s.waiter.Moves w s.coordinator got waiter c) :
    (∃ signals, got = some signals ∧ flags.Within signals) ∨
    Roused w flags { s with waiter, coordinator := c } ∧
      waiter.stepsLeft + 1 ≤ s.waiter.stepsLeft := by
  obtain ⟨now, c₀, timer, place, changing, raising⟩ := s
  have htends := h.tends
  cases hm with
  | find ht =>
    obtain ⟨-, rfl, -⟩ := Coordinator.takeSignals?_eq_some.mp ht
    exact Or.inl ⟨_, rfl, h.flags⟩
  | miss ht =>
    have hnone : c₀.signals.any = false := Coordinator.takeSignals?_eq_none.mp ht
    exact absurd (hnone.symm.trans (h.flags.any hany)) Bool.false_ne_true
  | pass hp =>
    unfold Coordinator.park at hp
    split at hp <;> cases hp
    next n hu =>
      have htends' : Notify.Tends w false n := htends.usePermit? hu
      exact Or.inr ⟨⟨htends', nofun, fun hr => hr.elim nofun nofun, h.flags⟩, Nat.le_refl _⟩
  | park hp =>
    unfold Coordinator.park at hp
    split at hp <;> cases hp
    next hu => exact absurd (h.awake (Or.inl rfl)) (htends.enroll hu).2
  | resume hc =>
    exact Or.inr ⟨⟨htends.resume hc, nofun, fun hr => hr.elim nofun nofun, h.flags⟩, Nat.le_refl _⟩

/-- **So does every step but a take by another.** -/
theorem step (h : Roused w flags s) (hany : flags.any = true) (hstep : Step p w s e s')
    (htake : ∀ signals, e ≠ .taken signals) :
    (∃ signals, e = .waited (some signals) ∧ flags.Within signals) ∨
    Roused w flags s' ∧ s'.waiter.stepsLeft + (if e.ofWaiter then 1 else 0) ≤
      s.waiter.stepsLeft := by
  cases hstep with
  | pass _ => exact Or.inr ⟨h.frame rfl (.refl _) rfl, Nat.le_refl _⟩
  | setPhase hc =>
    obtain ⟨-, rfl⟩ := Coordinator.changePhase?_eq_some.mp hc
    exact Or.inr ⟨h.frame rfl (.refl _) rfl, Nat.le_refl _⟩
  | keepPhase _ => exact Or.inr ⟨h, Nat.le_refl _⟩
  | tellTimer _ => exact Or.inr ⟨h.frame rfl (.refl _) rfl, Nat.le_refl _⟩
  | emit ha =>
    have hsame := (Coordinator.addSignals?_eq_some.mp ha).2
    exact Or.inr ⟨h.frame (by rw [hsame]) (.addSignals? ha) rfl, Nat.le_refl _⟩
  | refuse _ => exact Or.inr ⟨h, Nat.le_refl _⟩
  | requestStop => exact Or.inr ⟨h.frame rfl (.markStop _) rfl, Nat.le_refl _⟩
  | tellSupervisor _ => exact Or.inr ⟨h.notified.frame rfl (.refl _) rfl, Nat.le_refl _⟩
  | take _ => exact absurd rfl (htake _)
  | call haway => exact absurd haway h.called
  | wait hm =>
    rcases h.waited hany hm with ⟨signals, rfl, hw⟩ | hr
    · exact Or.inl ⟨signals, rfl, hw⟩
    · exact Or.inr hr
  | time hm =>
    rw [ofWaiter_deed]
    refine Or.inr ⟨?_, Nat.le_refl _⟩
    rcases hm.supervisor with ⟨-, rfl⟩ | ⟨checks, targets, -, -, ha⟩ | ⟨-, hsame, hwake⟩
    · exact h.notified.frame rfl (.refl _) rfl
    · have hc := (Coordinator.addSignals?_eq_some.mp ha).2
      exact h.frame (by rw [hc]) (.addSignals? ha) rfl
    · exact h.frame hwake (hsame ▸ .refl _) rfl

/-- **By its second step the task has the signals**, unless another takes them. -/
theorem steps (h : Roused w flags s) (hany : flags.any = true) (run : Steps p w s later s')
    (htake : ∀ x ∈ later, ∀ signals, x.2 ≠ .taken signals) :
    (∃ x ∈ later, ∃ signals, x.2 = .waited (some signals) ∧ flags.Within signals) ∨
    Roused w flags s' ∧ s'.waiter.stepsLeft + later.countP (·.2.ofWaiter) ≤
      s.waiter.stepsLeft := by
  induction run with
  | refl => exact Or.inr ⟨h, Nat.le_refl _⟩
  | @step earlier e s₁ s₂ _ hstep ih =>
    have hlast : (s₁.now, e) ∈ earlier ++ [(s₁.now, e)] :=
      List.mem_append_right _ (List.mem_singleton_self _)
    rcases ih fun x hx => htake x (List.mem_append_left _ hx) with ⟨x, hx, hgot⟩ | ⟨hr, hle⟩
    · exact Or.inl ⟨x, List.mem_append_left _ hx, hgot⟩
    · rcases hr.step hany hstep (htake _ hlast) with ⟨signals, he, hw⟩ | ⟨hr', hle'⟩
      · exact Or.inl ⟨_, hlast, signals, he, hw⟩
      · refine Or.inr ⟨hr', ?_⟩
        rw [List.countP_append, List.countP_singleton]
        dsimp only
        omega

/-- The task can always take its next step. -/
theorem goes_on (h : Roused w flags s) : ∃ got s', Step p w s (.waited got) s' := by
  obtain ⟨now, c, timer, place, changing, raising⟩ := s
  have htends := h.tends
  cases place with
  | away => exact absurd rfl h.called
  | looking =>
    cases ht : c.takeSignals? with
    | some r => exact ⟨_, _, .wait (.find ht)⟩
    | none => exact ⟨_, _, .wait (.miss ht)⟩
  | turning =>
    cases hp : c.park w with
    | mk parked c' =>
      cases parked with
      | true => exact ⟨_, _, .wait (.park hp)⟩
      | false => exact ⟨_, _, .wait (.pass hp)⟩
  | parked => exact ⟨_, _, .wait (.resume (htends.isChosen (h.awake (Or.inr rfl))))⟩

end Roused

/-- **No wake is lost.**  Whatever steps were taken in whatever order: if signals are there, and
every raise and every request for a stop has notified the supervisor, a task that is parked was
handed a wake.  A task that waits for signals then goes on whenever it is its turn, and by its
second step it is handed these signals and what was added to them, unless another task takes them
first. -/
theorem no_wake_lost (run : Steps p w (Crew.initial p start) history s)
    (hsignals : s.coordinator.signals.any = true) (htold : s.RaisesTold) :
    (s.waiter = .parked → s.coordinator.supervisorWake.isChosen w = true) ∧
    (s.waiter ≠ .away → ∀ later s', Steps p w s later s' →
      (∀ x ∈ later, ∀ signals, x.2 ≠ .taken signals) →
      (∃ x ∈ later, ∃ signals, x.2 = .waited (some signals) ∧
        s.coordinator.signals.Within signals) ∨
      later.countP (·.2.ofWaiter) ≤ 1 ∧ ∃ got s'', Step p w s' (.waited got) s'') := by
  have hatt : Attended w s := .steps run
  constructor
  · intro hparked
    have htends := hatt.tends
    rw [decide_eq_true hparked] at htends
    exact htends.isChosen (hatt.awake (Or.inr hparked) hsignals htold)
  · intro hcalled later s' run' htake
    rcases (hatt.roused hcalled hsignals htold).steps hsignals run' htake with hgot | ⟨hr, hle⟩
    · exact Or.inl hgot
    · refine Or.inr ⟨?_, hr.goes_on⟩
      have hfirst : s.waiter.stepsLeft ≤ 2 := by cases s.waiter <;> decide
      have hlast : 1 ≤ s'.waiter.stepsLeft := by
        have hcalled' := hr.called
        cases hw : s'.waiter with
        | away => exact absurd hw hcalled'
        | _ => decide
      omega

/-- A raise between the look that found nothing and the wait: a permit is kept, and the task goes
on by it. -/
theorem no_wake_lost_between : ∃ history s, Steps ⟨.ofSecs 60, none⟩ 0
      (Crew.initial ⟨.ofSecs 60, none⟩ .start) history s ∧
    s.waiter = .turning ∧ s.coordinator.signals.any = true ∧ s.RaisesTold ∧
    ∀ later s', Steps ⟨.ofSecs 60, none⟩ 0 s later s' →
      (∀ x ∈ later, ∀ signals, x.2 ≠ .taken signals) →
      (∃ x ∈ later, ∃ signals, x.2 = .waited (some signals) ∧
        s.coordinator.signals.Within signals) ∨
      later.countP (·.2.ofWaiter) ≤ 1 ∧
        ∃ got s'', Step ⟨.ofSecs 60, none⟩ 0 s' (.waited got) s'' := by
  have hplay := play_steps (p := ⟨.ofSecs 60, none⟩) (w := 0)
    (s := Crew.initial ⟨.ofSecs 60, none⟩ .start)
    [.call, .wait, .emit ⟨false, true, false⟩, .tellSupervisor] rfl
  exact ⟨_, _, hplay, rfl, rfl, ⟨rfl, rfl⟩, (no_wake_lost hplay rfl ⟨rfl, rfl⟩).2 nofun⟩

end Crew
end ServerWarden
