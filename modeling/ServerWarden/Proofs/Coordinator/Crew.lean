/-
# Tasks that share a coordinator

A timer, a task that waits for signals, and any number of others that set phases, raise checks, ask
for a stop and take signals, each a step at a time.  `Crew.Step` is one step of any of them, by the
operations of the coordinator and of the timer themselves, and `Crew.Steps` is any number of steps
in any order, with their history.

* A call that changes what is shared and then notifies a task is two steps.  Between them the state
  holds what is still to be told: `changing` has the phases of which the timer was not notified yet,
  and `raising` counts the raises and stop requests of which the supervisor was not.
* A timer that waits looks at its notification and at the clock, in any order: if it finds both, it
  may go on with either (`TimerPlace.Moves`).  Apart from that its steps are those of
  `TimerPlace.step?` (`TimerPlace.moves_iff`).
* The task that waits for signals takes them, or turns to wait, and then waits or uses up a permit
  (`WaiterPlace.Moves`).  Undisturbed it does what `Coordinator.pollWait` does
  (`Crew.steps_pollWait`).

Both wakers have one task that waits at them.  `Notify.Tends` lists the states of such a waker, and
`Notify.IsAwake` says that it holds a wake, stored or delivered.
-/
import ServerWarden.Coordinator.Timer
import ServerWarden.Proofs.Lists

namespace ServerWarden

/-! ## 1. A waker with one waiter -/

namespace Notify

/-- The states of a waker of which `w` is the only waiter, who waits or does not. -/
inductive Tends (w : WaiterId) : Bool → Notify → Prop where
  | idle (permit : Bool) : Tends w false ⟨permit, [], []⟩
  | waiting : Tends w true ⟨false, [w], []⟩
  | chosen (permit : Bool) : Tends w true ⟨permit, [], [w]⟩

/-- It holds a wake: a permit, or one that was handed to a waiter who did not run since. -/
def IsAwake (n : Notify) : Prop := n.permit = true ∨ n.chosen ≠ []

variable {w : WaiterId} {n n' : Notify} {waits : Bool}

theorem isAwake_notifyOne (n : Notify) : n.notifyOne.IsAwake := by
  obtain ⟨permit, waiting, chosen⟩ := n
  cases waiting with
  | nil => exact Or.inl rfl
  | cons v rest => exact Or.inr (List.cons_ne_nil v chosen)

theorem Tends.notifyOne (h : Tends w waits n) : Tends w waits n.notifyOne := by
  cases h with
  | idle permit => exact .idle true
  | waiting => exact .chosen false
  | chosen permit => exact .chosen true

theorem Tends.usePermit? (h : Tends w false n) (hu : n.usePermit? = some n') :
    Tends w false n' := by
  cases h with
  | idle permit =>
    cases permit with
    | false => exact nomatch hu
    | true =>
      obtain rfl := Option.some.inj hu
      exact .idle false

/-- A waiter that comes to wait found no wake. -/
theorem Tends.enroll (h : Tends w false n) (hu : n.usePermit? = none) :
    Tends w true (n.enroll w) ∧ ¬ n.IsAwake := by
  cases h with
  | idle permit =>
    cases permit with
    | false => exact ⟨.waiting, fun ha => ha.elim Bool.noConfusion (· rfl)⟩
    | true => exact nomatch hu

theorem Tends.resume (h : Tends w true n) (hc : n.isChosen w = true) :
    Tends w false (n.resume w) := by
  cases h with
  | waiting => exact nomatch hc
  | chosen permit =>
    have he : [w].erase w = [] := List.erase_cons_head w []
    simp only [Notify.resume, he]
    exact .idle permit

/-- A waiter that gives up leaves no one waiting, and passes on what it was handed. -/
theorem Tends.abandon (h : Tends w true n) :
    Tends w false (n.abandon w) ∧ (n.IsAwake → (n.abandon w).IsAwake) := by
  cases h with
  | waiting =>
    have he : Notify.abandon ⟨false, [w], []⟩ w = ⟨false, [], []⟩ := by
      simp [Notify.abandon, isChosen]
    rw [he]
    exact ⟨.idle false, fun ha => ha.elim Bool.noConfusion (fun hn => absurd rfl hn)⟩
  | chosen permit =>
    have he : Notify.abandon ⟨permit, [], [w]⟩ w = ⟨true, [], []⟩ := by
      simp [Notify.abandon, isChosen, Notify.resume, Notify.notifyOne]
    rw [he]
    exact ⟨.idle true, fun _ => Or.inl rfl⟩

/-- A wake of a waiter that waits is one that it was handed. -/
theorem Tends.isChosen (h : Tends w true n) (ha : n.IsAwake) : n.isChosen w = true := by
  cases h with
  | waiting => exact (ha.elim Bool.noConfusion (fun hn => absurd rfl hn))
  | chosen permit => simp [Notify.isChosen]

end Notify

/-! ## 2. What the operations change -/

namespace Coordinator

variable {c c' : Coordinator} {phase : TimerPhase} {checks signals : Signals}

theorem changePhase?_eq_some : c.changePhase? phase = some c' ↔
    (c.phase ≠ .stop ∧ c.phase ≠ phase) ∧ c' = { c with phase, phaseChanged := true } := by
  unfold changePhase?
  split
  next h =>
    refine ⟨(fun hn => nomatch hn), ?_⟩
    rintro ⟨⟨hs, hp⟩, -⟩
    exact (h.elim hs hp).elim
  next h =>
    rw [not_or] at h
    simp [h, eq_comm]

theorem changePhase?_eq_none :
    c.changePhase? phase = none ↔ c.phase = .stop ∨ c.phase = phase := by
  unfold changePhase?
  split
  next h => exact iff_of_true rfl h
  next h => exact iff_of_false nofun h

theorem addSignals?_eq_some : c.addSignals? checks = some c' ↔ c.phase = .run ∧
    c' = { c with signals := ⟨c.signals.stop, c.signals.healthCheck || checks.healthCheck,
      c.signals.updateCheck || checks.updateCheck⟩ } := by
  unfold addSignals?
  by_cases h : c.phase = .run
  · simp [h, eq_comm]
  · simp [h]

theorem takeSignals?_eq_some : c.takeSignals? = some (signals, c') ↔ c.signals.any = true ∧
    signals = c.signals ∧ c' = { c with signals := ⟨c.signals.stop, false, false⟩ } := by
  unfold takeSignals?
  by_cases h : c.signals.any = true
  · simp [h, eq_comm]
  · simp [h]

theorem takeSignals?_eq_none : c.takeSignals? = none ↔ c.signals.any = false := by
  simp [takeSignals?]

end Coordinator

/-! ## 3. Steps of the timer -/

namespace TimerPlace

def isParked : TimerPlace → Bool
  | .parked _ => true
  | _ => false

def isNotified : TimerPlace → Bool
  | .notified _ => true
  | _ => false

def isRinging : TimerPlace → Bool
  | .ringing _ => true
  | _ => false

/-- **A step of a timer**, to a place and a coordinator. -/
inductive Moves (p : TimerPlan) (w : WaiterId) (now : Instant) (c : Coordinator) :
    TimerPlace → TimerPlace → Coordinator → Prop where
  | choose (targets : Targets) :
      Moves p w now c (.choosing targets) (choose targets c w).1 (choose targets c w).2
  /-- It looked at the clock first. -/
  | overdue {targets : Targets} : targets.earliest.wake ≤ now →
      Moves p w now c (.choosing targets) (.due targets) c
  | resume {targets : Targets} : c.timerWake.isChosen w = true →
      Moves p w now c (.parked targets) (.notified targets)
        { c with timerWake := c.timerWake.resume w }
  | expire {targets : Targets} : targets.earliest.wake ≤ now →
      Moves p w now c (.parked targets) (.due targets)
        { c with timerWake := c.timerWake.abandon w }
  | notice (targets : Targets) :
      Moves p w now c (.notified targets) (notice p targets now c).1 (notice p targets now c).2
  | goOn (targets : Targets) : Moves p w now c (.due targets) (goOn targets c) c
  | count (targets : Targets) : Moves p w now c (.counting targets) (count p targets now) c
  | raise (checks : Signals) (targets : Targets) :
      Moves p w now c (.raising checks targets) (raise checks targets c).1
        (raise checks targets c).2
  | ring (targets : Targets) :
      Moves p w now c (.ringing targets) (.choosing targets) c.wakeSupervisor

variable {p : TimerPlan} {w : WaiterId} {now : Instant} {c c' : Coordinator}
  {place place' : TimerPlace}

/-- The timer does what `step?` says, but for its choice between a notification and a target that
are both there. -/
theorem moves_iff : place.Moves p w now c place' c' ↔
    place.step? p w now c = some (place', c') ∨
    ∃ targets, targets.earliest.wake ≤ now ∧ place' = .due targets ∧
      (place = .choosing targets ∧ c' = c ∨
        place = .parked targets ∧ c' = { c with timerWake := c.timerWake.abandon w }) := by
  constructor
  · intro h
    cases h with
    | overdue hd => exact Or.inr ⟨_, hd, rfl, Or.inl ⟨rfl, rfl⟩⟩
    | expire hd => exact Or.inr ⟨_, hd, rfl, Or.inr ⟨rfl, rfl⟩⟩
    | resume hc => exact Or.inl (by simp [step?, hc])
    | _ => exact Or.inl rfl
  · rintro (h | ⟨targets, hd, rfl, ⟨rfl, rfl⟩ | ⟨rfl, rfl⟩⟩)
    · have hpair {q : TimerPlace × Coordinator} (hq : some q = some (place', c')) :
          q.1 = place' ∧ q.2 = c' := Prod.ext_iff.mp (Option.some.inj hq)
      cases place with
      | choosing targets =>
        obtain ⟨rfl, rfl⟩ := hpair h
        exact .choose targets
      | parked targets =>
        by_cases hc : c.timerWake.isChosen w = true
        · simp only [step?, hc, if_true] at h
          cases h
          exact .resume hc
        · by_cases hd : targets.earliest.wake ≤ now
          · simp only [step?, hc, hd, if_true] at h
            cases h
            exact .expire hd
          · simp [step?, hc, hd] at h
      | notified targets =>
        obtain ⟨rfl, rfl⟩ := hpair h
        exact .notice targets
      | due targets =>
        obtain ⟨rfl, rfl⟩ := hpair h
        exact .goOn targets
      | counting targets =>
        obtain ⟨rfl, rfl⟩ := hpair h
        exact .count targets
      | raising checks targets =>
        obtain ⟨rfl, rfl⟩ := hpair h
        exact .raise checks targets
      | ringing targets =>
        obtain ⟨rfl, rfl⟩ := hpair h
        exact .ring targets
      | finished => exact nomatch h
      | failed => exact nomatch h
    · exact .overdue hd
    · exact .expire hd

/-! What each part of a step leaves alone. -/

theorem choose_cases (targets : Targets) (c : Coordinator) (w : WaiterId) :
    (∃ n, c.timerWake.usePermit? = some n ∧
      choose targets c w = (.notified targets, { c with timerWake := n })) ∨
    c.timerWake.usePermit? = none ∧
      choose targets c w = (.parked targets, { c with timerWake := c.timerWake.enroll w }) := by
  unfold choose
  cases hu : c.timerWake.usePermit? with
  | some n => exact Or.inl ⟨n, rfl, rfl⟩
  | none => exact Or.inr ⟨rfl, rfl⟩

theorem notice_of_unchanged (targets : Targets) (h : c.phaseChanged = false) :
    notice p targets now c = (.choosing targets, c) := by
  simp [notice, Coordinator.takePhaseChange?, h]

theorem notice_of_changed (targets : Targets) (h : c.phaseChanged = true) :
    notice p targets now c
      = (if c.phase = .stop then .finished else start p now, { c with phaseChanged := false }) := by
  obtain ⟨phase, changed, signals, timerWake, supervisorWake⟩ := c
  obtain rfl : changed = true := h
  cases phase <;> rfl

theorem raise_cases (checks : Signals) (targets : Targets) (c : Coordinator) :
    (∃ c', c.addSignals? checks = some c' ∧ raise checks targets c = (.ringing targets, c')) ∨
    c.addSignals? checks = none ∧ raise checks targets c = (.choosing targets, c) := by
  unfold raise
  cases ha : c.addSignals? checks with
  | some c' => exact Or.inl ⟨c', rfl, rfl⟩
  | none => exact Or.inr ⟨rfl, rfl⟩

/-- What the timer does to the supervisor's side: it notifies the supervisor after a raise, or
raises checks, or does nothing. -/
theorem Moves.supervisor (h : place.Moves p w now c place' c') :
    (place.isRinging = true ∧ c' = c.wakeSupervisor) ∨
    (∃ checks targets, place = .raising checks targets ∧ place' = .ringing targets ∧
      c.addSignals? checks = some c') ∨
    place.isRinging = false ∧ c'.signals = c.signals ∧ c'.supervisorWake = c.supervisorWake := by
  cases h with
  | ring targets => exact Or.inl ⟨rfl, rfl⟩
  | choose targets =>
    rcases choose_cases targets c w with ⟨n, -, hc⟩ | ⟨-, hc⟩
    · exact Or.inr (Or.inr ⟨rfl, by rw [hc], by rw [hc]⟩)
    · exact Or.inr (Or.inr ⟨rfl, by rw [hc], by rw [hc]⟩)
  | notice targets =>
    cases hch : c.phaseChanged with
    | false =>
      have hn : TimerPlace.notice p targets now c = _ := notice_of_unchanged targets hch
      exact Or.inr (Or.inr ⟨rfl, by rw [hn], by rw [hn]⟩)
    | true =>
      have hn : TimerPlace.notice p targets now c = _ := notice_of_changed targets hch
      exact Or.inr (Or.inr ⟨rfl, by rw [hn], by rw [hn]⟩)
  | raise checks targets =>
    rcases raise_cases checks targets c with ⟨c₁, ha, hc⟩ | ⟨-, hc⟩
    · rw [hc]
      exact Or.inr (Or.inl ⟨checks, targets, rfl, rfl, ha⟩)
    · exact Or.inr (Or.inr ⟨rfl, by rw [hc], by rw [hc]⟩)
  | _ => exact Or.inr (Or.inr ⟨rfl, rfl, rfl⟩)

end TimerPlace

/-! ## 4. Steps of a task that waits for signals -/

/-- Where a task that waits for signals stands. -/
inductive WaiterPlace where
  /-- It does not wait for signals. -/
  | away
  /-- It is about to look for signals. -/
  | looking
  /-- It found none and is about to wait for a notification. -/
  | turning
  /-- It waits for a notification. -/
  | parked
  deriving DecidableEq, Repr

namespace WaiterPlace

/-- **A step of a task that waits for signals**: what it got, where it stands, and the coordinator
that it leaves. -/
inductive Moves (w : WaiterId) (c : Coordinator) :
    WaiterPlace → Option Signals → WaiterPlace → Coordinator → Prop where
  | find {signals : Signals} {c' : Coordinator} : c.takeSignals? = some (signals, c') →
      Moves w c .looking (some signals) .away c'
  | miss : c.takeSignals? = none → Moves w c .looking none .turning c
  | pass {c' : Coordinator} : c.park w = (false, c') → Moves w c .turning none .looking c'
  | park {c' : Coordinator} : c.park w = (true, c') → Moves w c .turning none .parked c'
  | resume : c.supervisorWake.isChosen w = true →
      Moves w c .parked none .looking { c with supervisorWake := c.supervisorWake.resume w }

/-- The task has nothing to do with the timer. -/
theorem Moves.timer {w : WaiterId} {c c' : Coordinator} {place place' : WaiterPlace}
    {got : Option Signals} (h : place.Moves w c got place' c') :
    c'.phase = c.phase ∧ c'.phaseChanged = c.phaseChanged ∧ c'.timerWake = c.timerWake := by
  cases h with
  | find ht =>
    obtain ⟨-, -, rfl⟩ := Coordinator.takeSignals?_eq_some.mp ht
    exact ⟨rfl, rfl, rfl⟩
  | miss _ => exact ⟨rfl, rfl, rfl⟩
  | pass hp =>
    unfold Coordinator.park at hp
    split at hp <;> cases hp
    exact ⟨rfl, rfl, rfl⟩
  | park hp =>
    unfold Coordinator.park at hp
    split at hp <;> cases hp
    exact ⟨rfl, rfl, rfl⟩
  | resume _ => exact ⟨rfl, rfl, rfl⟩

/-- It takes signals, or leaves them alone. -/
theorem Moves.signals {w : WaiterId} {c c' : Coordinator} {place place' : WaiterPlace}
    {got : Option Signals} (h : place.Moves w c got place' c') :
    got = none ∧ c'.signals = c.signals ∨
    ∃ signals, got = some signals ∧ c.takeSignals? = some (signals, c') := by
  cases h with
  | find ht => exact Or.inr ⟨_, rfl, ht⟩
  | miss _ => exact Or.inl ⟨rfl, rfl⟩
  | pass hp =>
    unfold Coordinator.park at hp
    split at hp <;> cases hp
    exact Or.inl ⟨rfl, rfl⟩
  | park hp =>
    unfold Coordinator.park at hp
    split at hp <;> cases hp
    exact Or.inl ⟨rfl, rfl⟩
  | resume _ => exact Or.inl ⟨rfl, rfl⟩

end WaiterPlace

/-! ## 5. The crew -/

/-- A coordinator and the tasks that share it. -/
structure Crew where
  now : Instant
  coordinator : Coordinator
  timer : TimerPlace
  waiter : WaiterPlace
  /-- The phases that were set and of which the timer is still to be notified. -/
  changing : List TimerPhase
  /-- How many raises and stop requests are still to notify the supervisor. -/
  raising : Nat
  deriving DecidableEq, Repr

namespace Crew

/-- What happens in one step. -/
inductive Event where
  | passed (now : Instant)
  /-- A phase was set, or was the phase already or came after the last one. -/
  | phaseSet (phase : TimerPhase) (changed : Bool)
  | timerTold (phase : TimerPhase)
  | emitted (checks : Signals) (accepted : Bool)
  | stopRequested
  | supervisorTold
  /-- Signals were taken without waiting. -/
  | taken (signals : Signals)
  /-- A task began to wait for signals. -/
  | called
  /-- A task that waits for signals took a step, and got signals or none yet. -/
  | waited (got : Option Signals)
  /-- The timer took notice of a change of phase. -/
  | noticed
  /-- The timer raised checks. -/
  | ticked (checks : Signals) (accepted : Bool)
  /-- The timer took any other step. -/
  | timed
  deriving DecidableEq, Repr

namespace Event

def ofTimer : Event → Bool
  | .noticed | .ticked _ _ | .timed => true
  | _ => false

def ofWaiter : Event → Bool
  | .waited _ => true
  | _ => false

/-- A step of the timer, or of a call that sets a phase. -/
def concernsTimer : Event → Bool
  | .phaseSet _ _ | .timerTold _ => true
  | e => e.ofTimer

/-- The signals that were handed out. -/
def delivered? : Event → Option Signals
  | .taken signals => some signals
  | .waited got => got
  | _ => none

end Event

/-- What a timer does in its step. -/
def deed (c : Coordinator) : TimerPlace → Event
  | .notified _ => if c.phaseChanged then .noticed else .timed
  | .raising checks _ => .ticked checks (decide (c.phase = .run))
  | _ => .timed

section Deed

variable (c : Coordinator) (place : TimerPlace)

theorem deed_cases {P : Event → Prop} (hnoticed : P .noticed)
    (hticked : ∀ checks accepted, P (.ticked checks accepted)) (htimed : P .timed) :
    P (deed c place) := by
  unfold deed
  split
  · split
    · exact hnoticed
    · exact htimed
  · exact hticked _ _
  · exact htimed

theorem ofTimer_deed : (deed c place).ofTimer = true :=
  deed_cases c place (P := fun e => e.ofTimer = true) rfl (fun _ _ => rfl) rfl

theorem concernsTimer_deed : (deed c place).concernsTimer = true :=
  deed_cases c place (P := fun e => e.concernsTimer = true) rfl (fun _ _ => rfl) rfl

theorem ofWaiter_deed : (deed c place).ofWaiter = false :=
  deed_cases c place (P := fun e => e.ofWaiter = false) rfl (fun _ _ => rfl) rfl

theorem delivered?_deed : (deed c place).delivered? = none :=
  deed_cases c place (P := fun e => e.delivered? = none) rfl (fun _ _ => rfl) rfl

end Deed

/-- A new coordinator and a timer that starts now. -/
def initial (p : TimerPlan) (now : Instant) : Crew :=
  ⟨now, .initial, .start p now, .away, [], 0⟩

/-- **One step** of any task.  A take that finds nothing changes nothing and is no step. -/
inductive Step (p : TimerPlan) (w : WaiterId) (s : Crew) : Event → Crew → Prop where
  | pass {now : Instant} : s.now ≤ now → Step p w s (.passed now) { s with now }
  | setPhase {phase : TimerPhase} {c : Coordinator} : s.coordinator.changePhase? phase = some c →
      Step p w s (.phaseSet phase true)
        { s with coordinator := c, changing := phase :: s.changing }
  | keepPhase {phase : TimerPhase} : s.coordinator.changePhase? phase = none →
      Step p w s (.phaseSet phase false) s
  | tellTimer {phase : TimerPhase} : phase ∈ s.changing →
      Step p w s (.timerTold phase)
        { s with coordinator := s.coordinator.wakeTimer, changing := s.changing.erase phase }
  | emit {checks : Signals} {c : Coordinator} : s.coordinator.addSignals? checks = some c →
      Step p w s (.emitted checks true) { s with coordinator := c, raising := s.raising + 1 }
  | refuse {checks : Signals} : s.coordinator.addSignals? checks = none →
      Step p w s (.emitted checks false) s
  | requestStop :
      Step p w s .stopRequested
        { s with coordinator := s.coordinator.markStop, raising := s.raising + 1 }
  | tellSupervisor {n : Nat} : s.raising = n + 1 →
      Step p w s .supervisorTold
        { s with coordinator := s.coordinator.wakeSupervisor, raising := n }
  | take {signals : Signals} {c : Coordinator} : s.coordinator.takeSignals? = some (signals, c) →
      Step p w s (.taken signals) { s with coordinator := c }
  | call : s.waiter = .away → Step p w s .called { s with waiter := .looking }
  | wait {got : Option Signals} {waiter : WaiterPlace} {c : Coordinator} :
      s.waiter.Moves w s.coordinator got waiter c →
      Step p w s (.waited got) { s with waiter, coordinator := c }
  | time {timer : TimerPlace} {c : Coordinator} :
      s.timer.Moves p w s.now s.coordinator timer c →
      Step p w s (deed s.coordinator s.timer) { s with timer, coordinator := c }

/-- **Any number of steps**, with what happened in them and when. -/
inductive Steps (p : TimerPlan) (w : WaiterId) (s : Crew) :
    List (Instant × Event) → Crew → Prop where
  | refl : Steps p w s [] s
  | step {history : List (Instant × Event)} {e : Event} {s' s'' : Crew} :
      Steps p w s history s' → Step p w s' e s'' →
      Steps p w s (history ++ [(s'.now, e)]) s''

variable {p : TimerPlan} {w : WaiterId} {s s' s'' : Crew} {history later : List (Instant × Event)}
  {e : Event}

/-- The timer, and what it looks at, are the same. -/
structure SameTimer (s s' : Crew) : Prop where
  timer : s'.timer = s.timer
  changing : s'.changing = s.changing
  phase : s'.coordinator.phase = s.coordinator.phase
  phaseChanged : s'.coordinator.phaseChanged = s.coordinator.phaseChanged
  timerWake : s'.coordinator.timerWake = s.coordinator.timerWake

/-- The other tasks have nothing to do with the timer. -/
theorem Step.sameTimer (h : Step p w s e s') (he : e.concernsTimer = false) : SameTimer s s' := by
  cases h with
  | setPhase _ | keepPhase _ | tellTimer _ => exact nomatch he
  | emit ha =>
    obtain ⟨-, rfl⟩ := Coordinator.addSignals?_eq_some.mp ha
    exact ⟨rfl, rfl, rfl, rfl, rfl⟩
  | take ht =>
    obtain ⟨-, -, rfl⟩ := Coordinator.takeSignals?_eq_some.mp ht
    exact ⟨rfl, rfl, rfl, rfl, rfl⟩
  | wait hm =>
    obtain ⟨hp, hc, hn⟩ := hm.timer
    exact ⟨rfl, rfl, hp, hc, hn⟩
  | time _ => exact absurd (he.symm.trans (concernsTimer_deed _ _)) Bool.false_ne_true
  | _ => exact ⟨rfl, rfl, rfl, rfl, rfl⟩

theorem Steps.one (h : Step p w s e s') : Steps p w s [(s.now, e)] s' := .step .refl h

theorem Steps.trans (h : Steps p w s history s') (h' : Steps p w s' later s'') :
    Steps p w s (history ++ later) s'' := by
  induction h' with
  | refl => simpa using h
  | step _ he ih =>
    rw [← List.append_assoc]
    exact ih.step he

/-- What each step keeps, any number of steps keep.  The steps may be those of some events only. -/
theorem Steps.keeps {I : Crew → Prop} {Q : Event → Prop} (h : Steps p w s history s')
    (hstep : ∀ {s e s'}, Step p w s e s' → Q e → I s → I s') (hQ : ∀ x ∈ history, Q x.2)
    (hs : I s) : I s' := by
  induction h with
  | refl => exact hs
  | step _ he ih =>
    refine hstep he (hQ _ (List.mem_append_right _ (List.mem_singleton_self _))) (ih ?_)
    intro x hx
    exact hQ x (List.mem_append_left _ hx)

/-- The step of an event in the middle. -/
theorem Steps.split {earlier : List (Instant × Event)} {x : Instant × Event}
    (h : Steps p w s (earlier ++ x :: later) s') : ∃ s₁ s₂, Steps p w s earlier s₁ ∧
      x.1 = s₁.now ∧ Step p w s₁ x.2 s₂ ∧ Steps p w s₂ later s' := by
  generalize hh : earlier ++ x :: later = history at h
  induction h generalizing later with
  | refl => simp at hh
  | @step history e s₁ s₂ run hstep ih =>
    rcases cut_of_concat hh with ⟨rfl, rfl, rfl⟩ | ⟨later, rfl, hlater⟩
    · exact ⟨s₁, s₂, run, rfl, hstep, .refl⟩
    · obtain ⟨t₁, t₂, hbefore, hnow, hmid, hafter⟩ := ih hlater
      exact ⟨t₁, t₂, hbefore, hnow, hmid, hafter.step hstep⟩

theorem Step.now_le (h : Step p w s e s') : s.now ≤ s'.now := by
  cases h with
  | pass hn => exact hn
  | _ => exact Nat.le_refl _

theorem Steps.now_le (h : Steps p w s history s') : s.now ≤ s'.now := by
  induction h with
  | refl => exact Nat.le_refl _
  | step _ he ih => exact Nat.le_trans ih he.now_le

/-! ## 6. The coordinator's operations are steps in a row -/

theorem steps_setPhase (phase : TimerPhase) : ∃ history,
    Steps p w s history { s with coordinator := s.coordinator.setPhase phase } := by
  unfold Coordinator.setPhase
  cases hc : s.coordinator.changePhase? phase with
  | none => exact ⟨_, .one (.keepPhase hc)⟩
  | some c =>
    have hset : Step p w s (.phaseSet phase true) _ := .setPhase hc
    have htell := Step.tellTimer (p := p) (w := w) (s := { s with
      coordinator := c, changing := phase :: s.changing }) List.mem_cons_self
    have he : (phase :: s.changing).erase phase = s.changing := List.erase_cons_head _ _
    simp only [he] at htell
    exact ⟨_, (Steps.one hset).step htell⟩

theorem steps_requestStop : ∃ history,
    Steps p w s history { s with coordinator := s.coordinator.requestStop } := by
  have hask : Step p w s .stopRequested _ := .requestStop
  exact ⟨_, (Steps.one hask).step (.tellSupervisor rfl)⟩

theorem steps_emit (checks : Signals) : ∃ history,
    Steps p w s history { s with coordinator := (s.coordinator.emit checks).2 } := by
  unfold Coordinator.emit
  cases ha : s.coordinator.addSignals? checks with
  | none => exact ⟨_, .one (.refuse ha)⟩
  | some c =>
    have hemit : Step p w s (.emitted checks true) _ := .emit ha
    exact ⟨_, (Steps.one hemit).step (.tellSupervisor rfl)⟩

/-- The signals that were handed out, in their order. -/
def delivered (history : List (Instant × Event)) : List Signals :=
  history.filterMap fun x => x.2.delivered?

/-- Where a task stands between two polls. -/
def standing : Coordinator.WaitPlace → WaiterPlace
  | .fresh => .looking
  | .parked => .parked
  | .finished => .away

theorem takeSignals?_park {c c' : Coordinator} {parked : Bool} (h : c.park w = (parked, c'))
    (ht : c.takeSignals? = none) : c'.takeSignals? = none := by
  have hs : c'.signals = c.signals := by
    unfold Coordinator.park at h
    split at h <;> cases h <;> rfl
  rw [Coordinator.takeSignals?_eq_none] at ht ⊢
  rw [hs, ht]

/-- A permit is used up once. -/
theorem park_of_park {c c' : Coordinator} (h : c.park w = (false, c')) :
    c'.park w = (true, (c'.park w).2) := by
  unfold Coordinator.park at h
  split at h
  next n hu =>
    cases h
    unfold Notify.usePermit? at hu
    split at hu
    · cases hu
      rfl
    · exact nomatch hu
  next => exact nomatch h

/-- Undisturbed, a task looks for signals as `Coordinator.look` does. -/
theorem steps_look (hw : s.waiter = .looking) : ∃ history,
    Steps p w s history { s with
      waiter := if (s.coordinator.look w).1.isSome then .away else .parked
      coordinator := (s.coordinator.look w).2 } ∧
    delivered history = (s.coordinator.look w).1.toList := by
  obtain ⟨now, c, timer, waiter, changing, raising⟩ := s
  obtain rfl : waiter = .looking := hw
  cases ht : c.takeSignals? with
  | some r =>
    have hlook : c.look w = (some r.1, r.2) := by
      simp [Coordinator.look, Coordinator.lookOnce, ht]
    simp only [hlook]
    exact ⟨_, .one (.wait (.find ht)), rfl⟩
  | none =>
    have hmiss : Step p w ⟨now, c, timer, .looking, changing, raising⟩ (.waited none) _ :=
      .wait (.miss ht)
    cases hp : c.park w with
    | mk parked c₁ =>
      cases parked with
      | true =>
        have hlook : c.look w = (none, c₁) := by
          simp [Coordinator.look, Coordinator.lookOnce, ht, hp]
        simp only [hlook]
        exact ⟨_, (Steps.one hmiss).step (.wait (.park hp)), rfl⟩
      | false =>
        have ht₁ : c₁.takeSignals? = none := takeSignals?_park hp ht
        have hp₁ : c₁.park w = (true, (c₁.park w).2) := park_of_park hp
        have hlook : c.look w = (none, (c₁.park w).2) := by
          simp [Coordinator.look, Coordinator.lookOnce, ht, hp, ht₁]
        simp only [hlook]
        exact ⟨_, (((Steps.one hmiss).step (.wait (.pass hp))).step (.wait (.miss ht₁))).step
          (.wait (.park hp₁)), rfl⟩

/-- **Undisturbed, a task that waits for signals does what a poll of it does.** -/
theorem steps_pollWait (place : Coordinator.WaitPlace) (hw : s.waiter = standing place) :
    ∃ history, Steps p w s history { s with
      waiter := standing (s.coordinator.pollWait w place).2.1
      coordinator := (s.coordinator.pollWait w place).2.2 } ∧
    delivered history = (s.coordinator.pollWait w place).1.toList := by
  have hsettle (r : Option Signals × Coordinator) :
      standing (Coordinator.pollWait.settle r).2.1 = (if r.1.isSome then .away else .parked) ∧
      (Coordinator.pollWait.settle r).2.2 = r.2 ∧ (Coordinator.pollWait.settle r).1 = r.1 := by
    obtain ⟨got, c⟩ := r
    cases got <;> exact ⟨rfl, rfl, rfl⟩
  obtain ⟨now, c, timer, waiter, changing, raising⟩ := s
  obtain rfl : waiter = standing place := hw
  cases place with
  | fresh =>
    obtain ⟨hplace, hc, hgot⟩ := hsettle (c.look w)
    simp only [Coordinator.pollWait, hplace, hc, hgot]
    exact steps_look rfl
  | finished => exact ⟨[], .refl, rfl⟩
  | parked =>
    by_cases hch : c.supervisorWake.isChosen w = true
    · have hresume : Step p w ⟨now, c, timer, .parked, changing, raising⟩ (.waited none)
          ⟨now, { c with supervisorWake := c.supervisorWake.resume w }, timer, .looking, changing,
            raising⟩ := .wait (.resume hch)
      obtain ⟨history, hsteps, hgot⟩ := steps_look (p := p) (w := w)
        (s := ⟨now, { c with supervisorWake := c.supervisorWake.resume w }, timer, .looking,
          changing, raising⟩) rfl
      obtain ⟨hplace, hc, hgot'⟩ :=
        hsettle ({ c with supervisorWake := c.supervisorWake.resume w : Coordinator }.look w)
      simp only [Coordinator.pollWait, hch, if_true, hplace, hc, hgot']
      exact ⟨_, (Steps.one hresume).trans hsteps, hgot⟩
    · simp only [Coordinator.pollWait, hch]
      exact ⟨[], .refl, rfl⟩

/-! ## 7. Steps that are carried out -/

/-- A step to be taken. -/
inductive Act where
  | pass (now : Instant)
  | setPhase (phase : TimerPhase)
  | tellTimer (phase : TimerPhase)
  | emit (checks : Signals)
  | requestStop
  | tellSupervisor
  | take
  | call
  | wait
  | time
  /-- The timer goes on with a target, whether or not it was notified. -/
  | expire

def act? (p : TimerPlan) (w : WaiterId) (s : Crew) : Act → Option (Event × Crew)
  | .pass now => if s.now ≤ now then some (.passed now, { s with now }) else none
  | .setPhase phase =>
    match s.coordinator.changePhase? phase with
    | some c => some (.phaseSet phase true,
        { s with coordinator := c, changing := phase :: s.changing })
    | none => some (.phaseSet phase false, s)
  | .tellTimer phase =>
    if phase ∈ s.changing then
      some (.timerTold phase,
        { s with coordinator := s.coordinator.wakeTimer, changing := s.changing.erase phase })
    else none
  | .emit checks =>
    match s.coordinator.addSignals? checks with
    | some c => some (.emitted checks true,
        { s with coordinator := c, raising := s.raising + 1 })
    | none => some (.emitted checks false, s)
  | .requestStop => some (.stopRequested,
      { s with coordinator := s.coordinator.markStop, raising := s.raising + 1 })
  | .tellSupervisor =>
    if s.raising = 0 then none
    else some (.supervisorTold,
      { s with coordinator := s.coordinator.wakeSupervisor, raising := s.raising - 1 })
  | .take => s.coordinator.takeSignals?.map fun r => (.taken r.1, { s with coordinator := r.2 })
  | .call => if s.waiter = .away then some (.called, { s with waiter := .looking }) else none
  | .wait =>
    match s.waiter with
    | .away => none
    | .looking =>
      match s.coordinator.takeSignals? with
      | some (signals, c) =>
        some (.waited (some signals), { s with waiter := .away, coordinator := c })
      | none => some (.waited none, { s with waiter := .turning })
    | .turning =>
      let (parked, c) := s.coordinator.park w
      some (.waited none,
        { s with waiter := if parked then .parked else .looking, coordinator := c })
    | .parked =>
      if s.coordinator.supervisorWake.isChosen w then
        some (.waited none, { s with
          waiter := .looking
          coordinator := { s.coordinator with
            supervisorWake := s.coordinator.supervisorWake.resume w } })
      else none
  | .time =>
    (s.timer.step? p w s.now s.coordinator).map fun r =>
      (deed s.coordinator s.timer, { s with timer := r.1, coordinator := r.2 })
  | .expire =>
    match s.timer with
    | .choosing targets =>
      if targets.earliest.wake ≤ s.now then some (.timed, { s with timer := .due targets })
      else none
    | .parked targets =>
      if targets.earliest.wake ≤ s.now then
        some (.timed, { s with
          timer := .due targets
          coordinator := { s.coordinator with timerWake := s.coordinator.timerWake.abandon w } })
      else none
    | _ => none

theorem act?_step {a : Act} (h : s.act? p w a = some (e, s')) : Step p w s e s' := by
  obtain ⟨now, c, timer, waiter, changing, raising⟩ := s
  cases a with
  | pass now' =>
    simp only [act?, Option.ite_none_right_eq_some] at h
    obtain ⟨hn, h⟩ := h
    cases h
    exact .pass hn
  | setPhase phase =>
    simp only [act?] at h
    split at h <;> cases h
    next hc => exact .setPhase hc
    next hc => exact .keepPhase hc
  | tellTimer phase =>
    simp only [act?, Option.ite_none_right_eq_some] at h
    obtain ⟨hm, h⟩ := h
    cases h
    exact .tellTimer hm
  | emit checks =>
    simp only [act?] at h
    split at h <;> cases h
    next ha => exact .emit ha
    next ha => exact .refuse ha
  | requestStop =>
    cases h
    exact .requestStop
  | tellSupervisor =>
    cases raising with
    | zero => exact nomatch h
    | succ n =>
      cases h
      exact .tellSupervisor rfl
  | take =>
    obtain ⟨r, ht, h⟩ := Option.map_eq_some_iff.mp h
    cases h
    exact .take ht
  | call =>
    simp only [act?, Option.ite_none_right_eq_some] at h
    obtain ⟨hw, h⟩ := h
    cases h
    exact .call hw
  | wait =>
    cases waiter with
    | away => exact nomatch h
    | looking =>
      simp only [act?] at h
      split at h <;> cases h
      next ht => exact .wait (.find ht)
      next ht => exact .wait (.miss ht)
    | turning =>
      simp only [act?] at h
      cases hp : c.park w with
      | mk parked c₁ =>
        rw [hp] at h
        cases h
        cases parked with
        | true => exact .wait (.park hp)
        | false => exact .wait (.pass hp)
    | parked =>
      simp only [act?, Option.ite_none_right_eq_some] at h
      obtain ⟨hc, h⟩ := h
      cases h
      exact .wait (.resume hc)
  | time =>
    obtain ⟨r, ht, h⟩ := Option.map_eq_some_iff.mp h
    cases h
    exact .time (TimerPlace.moves_iff.mpr (Or.inl ht))
  | expire =>
    cases timer with
    | choosing targets =>
      simp only [act?, Option.ite_none_right_eq_some] at h
      obtain ⟨hd, h⟩ := h
      cases h
      exact .time (.overdue hd)
    | parked targets =>
      simp only [act?, Option.ite_none_right_eq_some] at h
      obtain ⟨hd, h⟩ := h
      cases h
      exact .time (.expire hd)
    | _ => exact nomatch h

/-- Carries out some steps, if each of them can be taken. -/
def play (p : TimerPlan) (w : WaiterId) (s : Crew) :
    List Act → Option (List (Instant × Event) × Crew)
  | [] => some ([], s)
  | a :: acts => do
    let (e, s') ← s.act? p w a
    let (history, s'') ← play p w s' acts
    return ((s.now, e) :: history, s'')

theorem play_steps (acts : List Act) (h : s.play p w acts = some (history, s')) :
    Steps p w s history s' := by
  induction acts generalizing s history with
  | nil =>
    cases h
    exact .refl
  | cons a acts ih =>
    obtain ⟨⟨e, s₁⟩, ha, h⟩ := Option.bind_eq_some_iff.mp h
    obtain ⟨⟨later, s₂⟩, hp, h⟩ := Option.bind_eq_some_iff.mp h
    cases h
    exact (Steps.one (act?_step ha)).trans (ih hp)

end Crew
end ServerWarden
