/-
# The cadence of checks under pauses

A run is prompt if time passes only when the timer was told of each change of phase and can do
nothing, and never beyond the moment at which it goes on by itself (`Crew.Timely`, `Crew.Prompt`).
In a prompt run the timer raises what the law says, moment by moment, whatever phases are set in it;
and whatever phases are to be set, there is such a run (`Crew.reaches`).

`Keeps` is what each step of a prompt run keeps: the timer stands where a timer stands that is never
late, and what it raised, with what it will still raise at this millisecond, is the law up to this
millisecond.  Three kinds of step bear on it: a step of the timer (`Stands.timed`), a call that sets
a phase (`Stands.called`), and the passing of time, which finds the timer parked (`Stands.settled`)
as no change of phase escapes it (`Watchful`).
-/
import ServerWarden.Proofs.Coordinator.Noticing
import ServerWarden.Proofs.Coordinator.Punctual

namespace ServerWarden.Crew

variable {p : TimerPlan} {w : WaiterId} {s s' : Crew} {e : Event}
  {health update start m n : Nat} {history : List (Instant × Event)} {x : Instant × Event}

/-! ## 1. Prompt runs -/

/-- Each call that set a phase has notified the timer, and the timer can do nothing. -/
def Settled (p : TimerPlan) (w : WaiterId) (s : Crew) : Prop :=
  s.changing = [] ∧ s.timer.step? p w s.now s.coordinator = none

/-- Time passes by whole milliseconds, in a state that is settled, and not beyond the moment at
which the timer goes on by itself. -/
def Timely (p : TimerPlan) (w : WaiterId) (s : Crew) : Event → Prop
  | .passed now => Settled p w s ∧ (∃ m, now = .ofMillis m) ∧
      ∀ deadline, s.timer.deadline? = some deadline → now ≤ deadline
  | _ => True

/-- **Steps of a run in which the timer is never late.** -/
inductive Prompt (p : TimerPlan) (w : WaiterId) (s : Crew) :
    List (Instant × Event) → Crew → Prop where
  | refl : Prompt p w s [] s
  | step {history : List (Instant × Event)} {e : Event} {s' s'' : Crew} :
      Prompt p w s history s' → Timely p w s' e → Step p w s' e s'' →
      Prompt p w s (history ++ [(s'.now, e)]) s''

theorem Prompt.steps (h : Prompt p w s history s') : Steps p w s history s' := by
  induction h with
  | refl => exact .refl
  | step _ _ hstep ih => exact ih.step hstep

/-- A phase that was set, and when. -/
def call? : Instant × Event → Option (Nat × TimerPhase)
  | (now, .phaseSet phase _) => some (now.millis, phase)
  | _ => none

/-- The phases that were set, in their order. -/
def calls (history : List (Instant × Event)) : List (Nat × TimerPhase) := history.filterMap call?

/-- The checks that the timer raised and that were accepted, in their order. -/
def ticks (history : List (Instant × Event)) : List (Nat × Signals) := history.filterMap tick?

theorem calls_append : calls (history ++ [x]) = calls history ++ (call? x).toList := by
  cases h : call? x <;> simp [calls, List.filterMap_append, h]

theorem ticks_append : ticks (history ++ [x]) = ticks history ++ (tick? x).toList := by
  cases h : tick? x <;> simp [ticks, List.filterMap_append, h]

theorem call?_deed (c : Coordinator) (place : TimerPlace) (now : Instant) :
    call? (now, deed c place) = none :=
  deed_cases c place (P := fun e => call? (now, e) = none) rfl (fun _ _ => rfl) rfl

/-- A settled timer has seen every change of phase. -/
theorem Watchful.seen (h : Watchful w s) (hs : Settled p w s) :
    s.coordinator.phaseChanged = false ∨ s.timer.hasEnded = true := by
  obtain ⟨htold, hstep⟩ := hs
  rcases TimerPlace.step?_eq_none hstep with hended | ⟨t, hplace, hchosen, -⟩
  · exact Or.inr hended
  · refine Or.inl ?_
    rw [Bool.eq_false_iff]
    intro hch
    have hgoing : s.timer.hasEnded = false := by rw [hplace]; rfl
    have htends : s.coordinator.timerWake.Tends w true := by
      have ht := h.tends
      rw [hplace] at ht
      exact ht
    rcases h.awake hch hgoing with ha | ha | ha
    · rw [htold] at ha
      exact nomatch ha
    · rw [hplace] at ha
      exact nomatch ha
    · exact absurd (hchosen.symm.trans (htends.isChosen ha)) Bool.false_ne_true

-- For any plan and moment: a reduction that meets milliseconds multiplies them out.
theorem initial_now (p : TimerPlan) (now : Instant) : (initial p now).now = now := rfl

theorem initial_timer (p : TimerPlan) (now : Instant) : (initial p now).timer = .start p now := rfl

/-! ## 2. What a prompt run keeps -/

/-- **The timer is never late, and raised what the law says**, or will at this millisecond. -/
structure Keeps (health update start m : Nat) (history : List (Instant × Event)) (s : Crew) :
    Prop where
  now : s.now = .ofMillis m
  started : start ≤ m
  called : ∀ call ∈ calls history, call.1 ≤ m
  phase : s.coordinator.phase = (epoch start (calls history)).phase
  stands : Stands health update (epoch start (calls history)) m s.coordinator.phaseChanged s.timer
  law : cadence health update start (calls history) m
    = ticks history ++ pendingTick (epoch start (calls history)) m s.timer

namespace Keeps

theorem initial (hpos : 0 < health) (hroom : start + max health update ≤ Instant.lastMillis) :
    Keeps health update start start [] (.initial (.ofMillis health update) (.ofMillis start)) := by
  obtain ⟨hstands, hpending⟩ :=
    Stands.start (e := epoch start []) hpos hroom rfl
  have hcalls : calls [] = [] := rfl
  have hticks : ticks [] = [] := rfl
  refine ⟨rfl, Nat.le_refl _, nofun, rfl, ?_, ?_⟩
  · rw [initial_timer, hcalls]
    exact hstands
  · rw [initial_timer, hcalls, hticks, hpending, cadence_start, List.append_nil]

/-- A step of another task, which sets no phase. -/
theorem frame (h : Keeps health update start m history s) (hcall : call? x = none)
    (htick : tick? x = none) (hnow : s'.now = s.now) (ht : s'.timer = s.timer)
    (hp : s'.coordinator.phase = s.coordinator.phase)
    (hch : s'.coordinator.phaseChanged = s.coordinator.phaseChanged) :
    Keeps health update start m (history ++ [x]) s' := by
  have hcalls : calls (history ++ [x]) = calls history := by simp [calls_append, hcall]
  have hticks : ticks (history ++ [x]) = ticks history := by simp [ticks_append, htick]
  refine ⟨hnow.trans h.now, h.started, ?_, ?_, ?_, ?_⟩
  · rw [hcalls]
    exact h.called
  · rw [hcalls, hp]
    exact h.phase
  · rw [hcalls, hch, ht]
    exact h.stands
  · rw [hcalls, hticks, ht]
    exact h.law

/-- A call that sets a phase. -/
theorem phaseSet (h : Keeps health update start m history s) {phase : TimerPhase} {changed : Bool}
    (hx : x = (s.now, .phaseSet phase changed)) (hnow : s'.now = s.now) (ht : s'.timer = s.timer)
    (hclear : (epoch start (calls history)).phase ≠ .stop →
      (epoch start (calls history)).phase ≠ phase →
      (dueAt health update (epoch start (calls history)).since m).any = false)
    (hstep : s'.coordinator.phase = s.coordinator.phase ∧
        s'.coordinator.phaseChanged = s.coordinator.phaseChanged ∧
        (s.coordinator.phase = .stop ∨ s.coordinator.phase = phase) ∨
      s'.coordinator.phase = phase ∧ s'.coordinator.phaseChanged = true ∧
        s.coordinator.phase ≠ .stop ∧ s.coordinator.phase ≠ phase) :
    Keeps health update start m (history ++ [x]) s' := by
  have hcall : call? x = some (m, phase) := by
    rw [hx, h.now]
    simp [call?, Instant.millis_ofMillis]
  have htick : tick? x = none := by rw [hx]; rfl
  have hcalls : calls (history ++ [x]) = calls history ++ [(m, phase)] := by
    rw [calls_append, hcall]
    rfl
  have hticks : ticks (history ++ [x]) = ticks history := by simp [ticks_append, htick]
  have hcalled : ∀ call ∈ calls history ++ [(m, phase)], call.1 ≤ m := by
    intro call hc
    rcases List.mem_append.mp hc with hc | hc
    · exact h.called call hc
    · exact Nat.le_of_eq (congrArg Prod.fst (List.mem_singleton.mp hc))
  have hlaw : cadence health update start (calls history ++ [(m, phase)]) m
      = cadence health update start (calls history) m := cadence_append h.called hclear
  have hphase := h.phase
  rcases hstep with ⟨hp, hch, hold⟩ | ⟨hp, hch, hgoing, hnew⟩
  · have hepoch : epoch start (calls history ++ [(m, phase)]) = epoch start (calls history) := by
      rw [epoch_append, Epoch.after, if_pos (hphase ▸ hold)]
    refine ⟨hnow.trans h.now, h.started, hcalls ▸ hcalled, ?_, ?_, ?_⟩
    · rw [hcalls, hepoch, hp, hphase]
    · rw [hcalls, hepoch, hch, ht]
      exact h.stands
    · rw [hcalls, hepoch, hticks, ht, hlaw]
      exact h.law
  · have hepoch : epoch start (calls history ++ [(m, phase)]) = ⟨m, phase⟩ := by
      rw [epoch_append, Epoch.after, if_neg (hphase ▸ not_or.mpr ⟨hgoing, hnew⟩)]
    rw [hphase] at hgoing hnew
    obtain ⟨hstands, hpending⟩ := h.stands.called ⟨m, phase⟩ hgoing (hclear hgoing hnew) rfl
    refine ⟨hnow.trans h.now, h.started, hcalls ▸ hcalled, ?_, ?_, ?_⟩
    · rw [hcalls, hepoch, hp]
    · rw [hcalls, hepoch, hch, ht]
      exact hstands
    · rw [hcalls, hepoch, hticks, ht, hlaw, hpending]
      exact h.law

/-- A step of the timer. -/
theorem timed (h : Keeps health update start m history s) (hpos : 0 < health)
    (hroom : m + max health update ≤ Instant.lastMillis) {timer : TimerPlace} {c : Coordinator}
    (hm : s.timer.Moves (.ofMillis health update) w s.now s.coordinator timer c) :
    Keeps health update start m (history ++ [(s.now, deed s.coordinator s.timer)])
      { s with timer, coordinator := c } := by
  have hcalls : calls (history ++ [(s.now, deed s.coordinator s.timer)]) = calls history := by
    simp [calls_append, call?_deed]
  rw [h.now] at hm
  obtain ⟨hstands, hpending⟩ := h.stands.timed h.phase hpos hroom hm
  refine ⟨h.now, h.started, ?_, ?_, ?_, ?_⟩
  · rw [hcalls]
    exact h.called
  · rw [hcalls]
    exact hm.phase_eq.trans h.phase
  · rw [hcalls]
    exact hstands
  · rw [hcalls, ticks_append, h.now, h.law, hpending, List.append_assoc]

/-- Where the timer stands when time passes. -/
theorem settled (h : Keeps health update start m history s) (hw : Watchful w s)
    (hs : Settled (.ofMillis health update) w s) :
    (∃ t, s.timer = .parked t ∧ s.coordinator.phaseChanged = false ∧
      Poised health update (epoch start (calls history)).since m t ∧
      ∀ k target, t.of? k = some target → .ofMillis m < target) ∨
    s.timer = .finished ∧ (epoch start (calls history)).phase = .stop := by
  have hstep := hs.2
  rw [h.now] at hstep
  exact h.stands.settled hstep (hw.seen hs)

/-- A settled timer has raised what the law says. -/
theorem law_of_settled (h : Keeps health update start m history s) (hw : Watchful w s)
    (hs : Settled (.ofMillis health update) w s) :
    ticks history = cadence health update start (calls history) m := by
  have hnone : pendingTick (epoch start (calls history)) m s.timer = [] := by
    rcases h.settled hw hs with ⟨t, hplace, -, -, hlater⟩ | ⟨hplace, -⟩
    · rw [hplace]
      exact pendingTick_of_pending (Targets.dueNow_of_lt hlater)
    · rw [hplace]
      exact pendingTick_of_pending rfl
  rw [h.law, hnone, List.append_nil]

/-- Time passes, at most up to the next target. -/
theorem passed (h : Keeps health update start m history s) (hw : Watchful w s)
    (hs : Settled (.ofMillis health update) w s) (hlt : m < n)
    (hn : ∀ deadline, s.timer.deadline? = some deadline → .ofMillis n ≤ deadline) :
    Keeps health update start n (history ++ [(s.now, .passed (.ofMillis n))])
      { s with now := .ofMillis n } := by
  have hcalls : calls (history ++ [(s.now, .passed (.ofMillis n))]) = calls history := by
    simp [calls_append, call?]
  have hticks : ticks (history ++ [(s.now, .passed (.ofMillis n))]) = ticks history := by
    simp [ticks_append, tick?]
  have hepoch (i : Nat) (hi : m ≤ i) :
      epochAt start (calls history) i = epoch start (calls history) :=
    epochAt_of_le fun call hc => Nat.le_trans (h.called call hc) hi
  have hstep := hs.2
  rw [h.now] at hstep
  obtain ⟨hstands, hbetween, hend⟩ := h.stands.passes hstep (hw.seen hs) hlt hn
  have hnone (i : Nat) (hi : m < i) (hin : i < n) :
      raisedAt? health update start (calls history) i = none := by
    unfold raisedAt?
    rw [hepoch i (Nat.le_of_lt hi)]
    refine if_neg fun ho => ?_
    exact absurd ((hbetween i hi hin ho.1).symm.trans ho.2) Bool.false_ne_true
  have hpending : (raisedAt? health update start (calls history) n).toList
      = pendingTick (epoch start (calls history)) n s.timer := by
    unfold raisedAt? pendingTick
    rw [hepoch n (Nat.le_of_lt hlt)]
    dsimp only
    by_cases hrun : (epoch start (calls history)).phase = .run
    · rw [hend hrun]
      split <;> rfl
    · rw [if_neg fun ho => hrun ho.1, if_neg fun ho => hrun ho.1]
      rfl
  refine ⟨rfl, Nat.le_trans h.started (Nat.le_of_lt hlt), ?_, ?_, ?_, ?_⟩
  · rw [hcalls]
    exact fun call hc => Nat.le_trans (h.called call hc) (Nat.le_of_lt hlt)
  · rw [hcalls]
    exact h.phase
  · rw [hcalls]
    exact hstands
  · rw [hcalls, hticks, h.law_of_settled hw hs, cadence_later h.started hlt hnone, hpending]

/-- **Each step of a prompt run keeps it.** -/
theorem step (h : Keeps health update start m history s) (hw : Watchful w s) (hpos : 0 < health)
    (hroom : m + max health update ≤ Instant.lastMillis)
    (htimely : Timely (.ofMillis health update) w s e)
    (hstep : Step (.ofMillis health update) w s e s')
    (hclear : Clear health update ⟨start, .run⟩ (calls (history ++ [(s.now, e)]))) :
    ∃ n, Keeps health update start n (history ++ [(s.now, e)]) s' := by
  have hclear_of {phase : TimerPhase} {changed : Bool} (he : e = .phaseSet phase changed) :
      (epoch start (calls history)).phase ≠ .stop → (epoch start (calls history)).phase ≠ phase →
      (dueAt health update (epoch start (calls history)).since m).any = false := by
    have hcall : call? (s.now, e) = some (m, phase) := by
      rw [he, h.now]
      simp [call?, Instant.millis_ofMillis]
    rw [calls_append, hcall] at hclear
    exact (clear_append.mp hclear).2.1
  have hsame := hstep.sameTimer
  cases hstep with
  | @pass now hn =>
    obtain ⟨hs, ⟨n, rfl⟩, hd⟩ := htimely
    rw [h.now, Instant.ofMillis_le] at hn
    rcases Nat.lt_or_eq_of_le hn with hlt | rfl
    · exact ⟨n, h.passed hw hs hlt hd⟩
    · exact ⟨m, h.frame rfl rfl h.now.symm rfl rfl rfl⟩
  | setPhase hc =>
    obtain ⟨⟨hgoing, hnew⟩, rfl⟩ := Coordinator.changePhase?_eq_some.mp hc
    exact ⟨m, h.phaseSet rfl rfl rfl (hclear_of rfl) (Or.inr ⟨rfl, rfl, hgoing, hnew⟩)⟩
  | keepPhase hc =>
    have hold := Coordinator.changePhase?_eq_none.mp hc
    exact ⟨m, h.phaseSet rfl rfl rfl (hclear_of rfl) (Or.inl ⟨rfl, rfl, hold⟩)⟩
  | tellTimer _ => exact ⟨m, h.frame rfl rfl rfl rfl rfl rfl⟩
  | time hm => exact ⟨m, h.timed hpos hroom hm⟩
  | _ =>
    obtain ⟨ht, -, hp, hch, -⟩ := hsame rfl
    exact ⟨m, h.frame rfl rfl rfl ht hp hch⟩

/-- Any prompt run keeps it, at whatever millisecond it stands. -/
theorem exists_of_prompt (hpos : 0 < health)
    (run : Prompt (.ofMillis health update) w
      (Crew.initial (.ofMillis health update) (.ofMillis start)) history s)
    (hclear : Clear health update ⟨start, .run⟩ (calls history))
    (hroom : s.now.millis + max health update ≤ Instant.lastMillis) :
    ∃ m, Keeps health update start m history s := by
  induction run with
  | refl =>
    rw [initial_now, Instant.millis_ofMillis] at hroom
    exact ⟨start, initial hpos hroom⟩
  | @step history e s s' run htimely hstep ih =>
    have hnow : s.now.millis ≤ s'.now.millis := Nat.div_le_div_right hstep.now_le
    have hearlier : Clear health update ⟨start, .run⟩ (calls history) := by
      rw [calls_append] at hclear
      cases hcall : call? (s.now, e) with
      | none => simpa [hcall] using hclear
      | some call =>
        rw [hcall] at hclear
        exact (clear_append.mp hclear).1
    obtain ⟨m, hkeeps⟩ := ih hearlier (by omega)
    have hm : s.now.millis = m := by rw [hkeeps.now, Instant.millis_ofMillis]
    exact hkeeps.step (.steps run.steps) hpos (by omega) htimely hstep hclear

/-- **Any prompt run keeps it.** -/
theorem of_prompt (hpos : 0 < health)
    (run : Prompt (.ofMillis health update) w
      (Crew.initial (.ofMillis health update) (.ofMillis start)) history s)
    (hclear : Clear health update ⟨start, .run⟩ (calls history)) (hnow : s.now = .ofMillis m)
    (hroom : m + max health update ≤ Instant.lastMillis) :
    Keeps health update start m history s := by
  have hmillis : s.now.millis = m := by rw [hnow, Instant.millis_ofMillis]
  obtain ⟨i, hkeeps⟩ := exists_of_prompt hpos run hclear (hmillis.symm ▸ hroom)
  obtain rfl : i = m := Instant.ofMillis_inj.mp (hkeeps.now.symm.trans hnow)
  exact hkeeps

end Keeps

/-! ## 3. Every schedule has a prompt run -/

/-- The wakes that are stored or were handed out. -/
def wakes (n : Notify) : Nat := n.permit.toNat + n.chosen.length

section Wakes

variable {waker waker' : Notify}

theorem wakes_usePermit? (h : waker.Tends w false) (hu : waker.usePermit? = some waker') :
    wakes waker' + 1 = wakes waker := by
  cases h with
  | idle permit =>
    cases permit with
    | false => exact nomatch hu
    | true =>
      obtain rfl := Option.some.inj hu
      rfl

theorem wakes_resume (h : waker.Tends w true) (hc : waker.isChosen w = true) :
    wakes (waker.resume w) + 1 = wakes waker := by
  cases h with
  | waiting => exact nomatch hc
  | chosen permit => simp [wakes, Notify.resume]

theorem wakes_abandon (h : waker.Tends w true) : wakes (waker.abandon w) ≤ wakes waker := by
  cases h with
  | waiting => simp [wakes, Notify.abandon, Notify.isChosen]
  | chosen permit =>
    simp [wakes, Notify.abandon, Notify.isChosen, Notify.resume, Notify.notifyOne]

end Wakes

/-- How much a timer has to do before it is parked, wakes aside.  A target that is due weighs more
than the way from counting it to the next wait. -/
def workLeft (now : Instant) : TimerPlace → Nat
  | .notified t => 10 * (t.dueNow now).any.toNat + 4
  | .choosing t => 10 * (t.dueNow now).any.toNat + 3
  | .parked t => 10 * (t.dueNow now).any.toNat + 2
  | .due t => 10 * (t.dueNow now).any.toNat + 1
  | .counting t => 10 * (t.dueNow now).any.toNat
  | .raising _ _ => 5
  | .ringing _ => 4
  | .finished | .failed => 0

theorem workLeft_start (hpos : 0 < health) (hroom : m + max health update ≤ Instant.lastMillis) :
    workLeft (.ofMillis m) (.start (.ofMillis health update) (.ofMillis m)) = 3 := by
  obtain ⟨t, ht⟩ := TimerPlan.arm?_ofMillis hroom
  have hlater : (t.dueNow (.ofMillis m)).any = false :=
    Targets.dueNow_of_lt fun k target => (Poised.armed hpos ht).lt_of_since
  rw [TimerPlace.start_of_arm? ht]
  simp [workLeft, hlater]

/-- **Each step of the timer leaves it less to do at this moment.** -/
theorem work_less {epoch : Epoch} {place place' : TimerPlace} {c c' : Coordinator}
    (h : Stands health update epoch m c.phaseChanged place)
    (htends : c.timerWake.Tends w place.isParked) (hpos : 0 < health)
    (hroom : m + max health update ≤ Instant.lastMillis)
    (hm : place.Moves (.ofMillis health update) w (.ofMillis m) c place' c') :
    10 * wakes c'.timerWake + workLeft (.ofMillis m) place'
      < 10 * wakes c.timerWake + workLeft (.ofMillis m) place := by
  cases hm with
  | choose targets =>
    rcases TimerPlace.choose_cases targets c w with ⟨n, hu, hc⟩ | ⟨-, hc⟩
    · have hless := wakes_usePermit? htends hu
      rw [hc]
      simp only [workLeft]
      omega
    · rw [hc]
      simp only [workLeft, wakes, Notify.enroll]
      omega
  | overdue _ =>
    simp only [workLeft]
    omega
  | resume hc =>
    have hless := wakes_resume htends hc
    simp only [workLeft]
    omega
  | expire _ =>
    have hless := wakes_abandon htends
    simp only [workLeft]
    omega
  | notice targets =>
    cases hch : c.phaseChanged with
    | false =>
      rw [TimerPlace.notice_of_unchanged targets hch]
      simp only [workLeft]
      omega
    | true =>
      rw [TimerPlace.notice_of_changed targets hch]
      dsimp only
      split
      · simp only [workLeft]
        omega
      · rw [workLeft_start hpos hroom]
        simp only [workLeft]
        omega
  | goOn targets =>
    unfold TimerPlace.goOn
    split <;> simp only [workLeft] <;> omega
  | count targets =>
    obtain ⟨-, hpoised, hany⟩ := h.of_counting
    obtain ⟨t', hf, -, -⟩ := hpoised.fire hroom
    unfold TimerPlace.count
    rw [hf]
    dsimp only
    rw [if_pos hany]
    simp only [workLeft, hany, Bool.toNat_true]
    omega
  | raise checks targets =>
    obtain ⟨-, -, hnot, -, -⟩ := h.of_raising
    rcases TimerPlace.raise_cases checks targets c with ⟨c₁, ha, hc⟩ | ⟨-, hc⟩
    · obtain ⟨-, rfl⟩ := Coordinator.addSignals?_eq_some.mp ha
      rw [hc]
      simp only [workLeft]
      omega
    · rw [hc]
      simp only [workLeft, hnot, Bool.toNat_false]
      omega
  | ring targets =>
    obtain ⟨-, -, hnot⟩ := h.of_ringing
    simp only [workLeft, hnot, Bool.toNat_false, Coordinator.wakeSupervisor]
    omega

theorem timely_deed (c : Coordinator) (place : TimerPlace) : Timely p w s (deed c place) :=
  deed_cases c place (P := Timely p w s) trivial (fun _ _ => trivial) trivial

/-- A state that can be reached at a millisecond after some calls, with nothing left to do. -/
def Reaches (health update start : Nat) (w : WaiterId) (cs : List (Nat × TimerPhase)) (m : Nat) :
    Prop :=
  ∃ history s, Prompt (.ofMillis health update) w
      (.initial (.ofMillis health update) (.ofMillis start)) history s ∧
    Settled (.ofMillis health update) w s ∧ calls history = cs ∧ s.now = .ofMillis m

section Reaches

variable {cs : List (Nat × TimerPhase)}

/-- The timer does what is left to do. -/
theorem reaches_of_prompt (hpos : 0 < health)
    (run : Prompt (.ofMillis health update) w
      (.initial (.ofMillis health update) (.ofMillis start)) history s)
    (htold : s.changing = []) (hclear : Clear health update ⟨start, .run⟩ (calls history))
    (hnow : s.now = .ofMillis m) (hroom : m + max health update ≤ Instant.lastMillis) :
    Reaches health update start w (calls history) m := by
  generalize hwork : 10 * wakes s.coordinator.timerWake + workLeft s.now s.timer = work
  induction work using Nat.strongRecOn generalizing history s with
  | _ work ih =>
    cases hstep : s.timer.step? (.ofMillis health update) w s.now s.coordinator with
    | none => exact ⟨history, s, run, ⟨htold, hstep⟩, rfl, hnow⟩
    | some r =>
      have hm := TimerPlace.moves_iff.mpr (Or.inl hstep)
      have hcalls : calls (history ++ [(s.now, deed s.coordinator s.timer)]) = calls history := by
        simp [calls_append, call?_deed]
      have hkeeps := Keeps.of_prompt hpos run hclear hnow hroom
      have hless := work_less hkeeps.stands (Watchful.steps run.steps).tends hpos hroom
        (hkeeps.now ▸ hm)
      rw [← hnow, hwork] at hless
      rw [← hcalls] at hclear ⊢
      exact ih _ hless (run.step (timely_deed _ _) (.time hm)) htold hclear hnow rfl

/-- Time passes, from target to target. -/
theorem Reaches.wait (h : Reaches health update start w cs m) (hpos : 0 < health)
    (hclear : Clear health update ⟨start, .run⟩ cs) (hle : m ≤ n)
    (hroom : n + max health update ≤ Instant.lastMillis) :
    Reaches health update start w cs n := by
  generalize hgap : n - m = gap
  induction gap using Nat.strongRecOn generalizing m with
  | _ gap ih =>
    rcases Nat.eq_or_lt_of_le hle with rfl | hlt
    · exact h
    · obtain ⟨history, s, run, hsettled, rfl, hnow⟩ := h
      have hkeeps := Keeps.of_prompt hpos run hclear hnow (by omega)
      -- time passes up to the next target, or to the end if that comes first
      have hstop : ∃ stop, m < stop ∧ stop ≤ n ∧
          ∀ deadline, s.timer.deadline? = some deadline → .ofMillis stop ≤ deadline := by
        rcases hkeeps.settled (.steps run.steps) hsettled with
          ⟨t, hplace, -, hpoised, hlater⟩ | ⟨hplace, -⟩
        · obtain ⟨k, hk⟩ := t.exists_earliest
          obtain ⟨-, target, htarget, -⟩ := hpoised.of_target hk
          have hlt' := hlater k _ hk
          rw [htarget, Instant.ofMillis_lt] at hlt'
          refine ⟨min target n, by omega, Nat.min_le_right _ _, fun deadline hd => ?_⟩
          rw [hplace] at hd
          obtain rfl := Option.some.inj hd
          rw [hpoised.wake_earliest, htarget, Instant.ofMillis_le]
          exact Nat.min_le_left _ _
        · refine ⟨n, hlt, Nat.le_refl n, fun deadline hd => ?_⟩
          rw [hplace] at hd
          exact nomatch hd
      obtain ⟨stop, hi, hn, hdeadline⟩ := hstop
      have hcalls : calls (history ++ [(s.now, .passed (.ofMillis stop))]) = calls history := by
        simp [calls_append, call?]
      have hpass : Step (.ofMillis health update) w s (.passed (.ofMillis stop))
          { s with now := .ofMillis stop } := by
        refine .pass ?_
        rw [hnow, Instant.ofMillis_le]
        exact Nat.le_of_lt hi
      have hpassed := run.step (e := .passed (.ofMillis stop))
        ⟨hsettled, ⟨stop, rfl⟩, hdeadline⟩ hpass
      have hreaches := reaches_of_prompt (m := stop) hpos hpassed hsettled.1
        (hcalls.symm ▸ hclear) rfl (by omega)
      rw [hcalls] at hreaches
      exact ih (n - stop) (by omega) hreaches hn rfl

/-- A phase is set, and the timer is told. -/
theorem Reaches.call (h : Reaches health update start w cs m) (phase : TimerPhase)
    (hpos : 0 < health)
    (hclear : Clear health update ⟨start, .run⟩ (cs ++ [(m, phase)]))
    (hroom : m + max health update ≤ Instant.lastMillis) :
    Reaches health update start w (cs ++ [(m, phase)]) m := by
  obtain ⟨history, s, run, hsettled, rfl, hnow⟩ := h
  have hcall (changed : Bool) : calls (history ++ [(s.now, .phaseSet phase changed)])
      = calls history ++ [(m, phase)] := by
    rw [calls_append, hnow]
    simp [call?, Instant.millis_ofMillis]
  cases hc : s.coordinator.changePhase? phase with
  | none =>
    rw [← hcall false] at hclear ⊢
    exact reaches_of_prompt hpos (run.step trivial (.keepPhase hc)) hsettled.1 hclear hnow hroom
  | some c =>
    have hset := run.step (e := .phaseSet phase true) trivial (.setPhase hc)
    have htold := hset.step (e := .timerTold phase) trivial (.tellTimer List.mem_cons_self)
    have hcalls : calls (history ++ [(s.now, .phaseSet phase true)] ++ [(s.now, .timerTold phase)])
        = calls history ++ [(m, phase)] := by
      rw [calls_append, hcall true]
      simp [call?]
    rw [← hcalls] at hclear ⊢
    refine reaches_of_prompt hpos htold ?_ hclear hnow hroom
    dsimp only
    rw [List.erase_cons_head, hsettled.1]

theorem Reaches.all {rest : List (Nat × TimerPhase)} {last : Nat}
    (h : Reaches health update start w cs m) (hpos : 0 < health)
    (hsorted : rest.Pairwise fun a b => a.1 ≤ b.1)
    (hrest : ∀ call ∈ rest, m ≤ call.1 ∧ call.1 ≤ last) (hle : m ≤ last)
    (hclear : Clear health update ⟨start, .run⟩ (cs ++ rest))
    (hroom : last + max health update ≤ Instant.lastMillis) :
    Reaches health update start w (cs ++ rest) last := by
  induction rest generalizing cs m with
  | nil =>
    rw [List.append_nil] at hclear ⊢
    exact h.wait hpos hclear hle hroom
  | cons call rest ih =>
    obtain ⟨hfirst, hlast⟩ := hrest call List.mem_cons_self
    obtain ⟨hbefore, hsorted⟩ := List.pairwise_cons.mp hsorted
    have hwaited := h.wait hpos (clear_append.mp hclear).1 hfirst (by omega)
    rw [List.append_cons] at hclear ⊢
    have hcalled := hwaited.call call.2 hpos (clear_append.mp hclear).1 (by omega)
    refine ih hcalled hsorted (fun c hc => ?_) hlast hclear
    exact ⟨hbefore c hc, (hrest c (List.mem_cons_of_mem _ hc)).2⟩

/-- **Each schedule of calls has a prompt run.** -/
theorem reaches (hpos : 0 < health) {last : Nat} (hsorted : cs.Pairwise fun a b => a.1 ≤ b.1)
    (hcs : ∀ call ∈ cs, start ≤ call.1 ∧ call.1 ≤ last) (hstart : start ≤ last)
    (hclear : Clear health update ⟨start, .run⟩ cs)
    (hroom : last + max health update ≤ Instant.lastMillis) :
    Reaches health update start w cs last := by
  have hbegins : Reaches health update start w [] start :=
    reaches_of_prompt hpos .refl rfl trivial (initial_now _ _) (by omega)
  exact hbegins.all hpos hsorted hcs hstart hclear hroom

end Reaches

/-! ## 4. The law -/

/-- **The cadence of checks under pauses.**  For all intervals of whole milliseconds and every
schedule of calls that set phases, none of them on a beat of the stretch that it ends: there is a
prompt run with these calls, and in each such run the checks that the timer raised and that were
accepted are those of the law, in their order and at their moments. -/
theorem cadence_of_calls (hpos : 0 < health) {cs : List (Nat × TimerPhase)} {last : Nat}
    (hsorted : cs.Pairwise fun a b => a.1 ≤ b.1)
    (hcs : ∀ call ∈ cs, start ≤ call.1 ∧ call.1 ≤ last) (hstart : start ≤ last)
    (hclear : Clear health update ⟨start, .run⟩ cs)
    (hroom : last + max health update ≤ Instant.lastMillis) :
    (∃ history s, Prompt (.ofMillis health update) w
        (.initial (.ofMillis health update) (.ofMillis start)) history s ∧
      Settled (.ofMillis health update) w s ∧ calls history = cs ∧ s.now = .ofMillis last) ∧
    ∀ history s, Prompt (.ofMillis health update) w
        (.initial (.ofMillis health update) (.ofMillis start)) history s →
      Settled (.ofMillis health update) w s → calls history = cs → s.now = .ofMillis last →
      ticks history = cadence health update start cs last := by
  refine ⟨reaches hpos hsorted hcs hstart hclear hroom, ?_⟩
  rintro history s run hsettled rfl hnow
  have hkeeps := Keeps.of_prompt hpos run hclear hnow hroom
  exact hkeeps.law_of_settled (.steps run.steps) hsettled

/-- Health checks every two milliseconds and update checks every three, a pause from 5 to 6, and the
last phase at 13: the cadence begins anew at 6, and both checks of 12 are raised at once. -/
theorem cadence_of_calls_paused : ∃ history s, Prompt (.ofMillis 2 3) 0
      (.initial (.ofMillis 2 3) (.ofMillis 0)) history s ∧
    calls history = [(5, .pause), (6, .run), (13, .stop)] ∧
    ticks history = [(2, ⟨false, true, false⟩), (3, ⟨false, false, true⟩),
      (4, ⟨false, true, false⟩), (8, ⟨false, true, false⟩), (9, ⟨false, false, true⟩),
      (10, ⟨false, true, false⟩), (12, ⟨false, true, true⟩)] := by
  obtain ⟨⟨history, s, run, hsettled, hcalls, hnow⟩, hlaw⟩ := cadence_of_calls (w := 0)
    (show 0 < 2 by decide) (by decide) (by decide) (by decide)
    (show Clear 2 3 ⟨0, .run⟩ [(5, .pause), (6, .run), (13, .stop)] from
      ⟨fun _ _ => rfl, fun _ _ => rfl, fun _ _ => rfl, trivial⟩)
    (show 20 + max 2 3 ≤ Instant.lastMillis by decide +kernel)
  exact ⟨history, s, run, hcalls, (hlaw history s run hsettled hcalls hnow).trans (by decide)⟩

end ServerWarden.Crew
