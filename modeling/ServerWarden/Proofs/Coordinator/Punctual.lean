/-
# A timer that is never late

On a clock of whole milliseconds, a timer that is never late has the next beat of each kind as its
target (`Poised`), from the moment at which it knows of the stretch.  Counting moves on the targets
that are due, each to the beat after it (`Poised.fire`).

`Stands` says this of each place of the timer.  A timer that does not know of the stretch yet waits
or is about to, and none of its targets is due.  What it will still raise at this millisecond
(`pending`) stays the same in each of its steps, until it is raised (`Stands.timed`).
-/
import ServerWarden.Proofs.Coordinator.Beats
import ServerWarden.Proofs.Coordinator.Crew

namespace ServerWarden

variable {health update since m n : Nat} {t t' : Targets} {k : Check}

/-! ## 1. Sums on the clock -/

theorem Instant.ofMillis_inj {a b : Nat} : ofMillis a = ofMillis b ↔ a = b := by
  rw [ofMillis, ofMillis, Instant.mk.injEq]
  omega

theorem Instant.millis_ofMillis (ms : Nat) : (ofMillis ms).millis = ms :=
  Nat.mul_div_cancel ms (by decide)

theorem Instant.add?_ofMillis_eq {ms : Nat} (h : n + ms ≤ lastMillis) :
    (ofMillis n).add? (.ofMillis ms) = some (ofMillis (n + ms)) := by
  obtain ⟨sum, hs⟩ := Option.ne_none_iff_exists'.mp (add?_ofMillis.mpr (holds_some.mpr h))
  rw [hs, add?_eq_some hs, ofMillis_add]

theorem advance?_of_lt {target next now : Instant} {interval : Duration}
    (h : target.add? interval = some next) (hlt : now < next) :
    advance? target interval now = some next := by
  have hlater : ¬ next ≤ now := Nat.not_le.mpr hlt
  simp [advance?, h, hlater]

theorem advance?_ofMillis {ms : Nat} (hpos : 0 < ms) (h : m + ms ≤ Instant.lastMillis) :
    advance? (.ofMillis m) (.ofMillis ms) (.ofMillis m) = some (.ofMillis (m + ms)) :=
  advance?_of_lt (Instant.add?_ofMillis_eq h) (Instant.ofMillis_lt.mpr (by omega))

namespace TimerPlan

theorem interval?_of (health update : Duration) (k : Check) :
    (TimerPlan.of health update).interval? k =
      match k with
      | .health => some health
      | .update => if update.isZero then none else some update := by
  cases k <;> rfl

theorem arm?_of {health update : Duration} {now : Instant} (hh : now.add? health ≠ none)
    (hu : now.add? update ≠ none) : ∃ t, (TimerPlan.of health update).arm? now = some t := by
  obtain ⟨health', hh⟩ := Option.ne_none_iff_exists'.mp hh
  obtain ⟨update', hu⟩ := Option.ne_none_iff_exists'.mp hu
  by_cases hz : update.isZero = true
  · exact ⟨⟨health', none⟩, by simp [TimerPlan.of, arm?, hh, hz]⟩
  · exact ⟨⟨health', some update'⟩, by simp [TimerPlan.of, arm?, hh, hu, hz]⟩

/-- A plan with intervals of whole milliseconds; no time between update checks means none. -/
def ofMillis (health update : Nat) : TimerPlan := .of (.ofMillis health) (.ofMillis update)

theorem interval?_of_pos (h : 0 < periodOf health update k) :
    (ofMillis health update).interval? k = some (.ofMillis (periodOf health update k)) := by
  rw [ofMillis, interval?_of]
  cases k with
  | health => rfl
  | update =>
    dsimp only
    rw [if_neg]
    · rfl
    · rw [Duration.isZero_ofMillis]
      exact Nat.pos_iff_ne_zero.mp h

theorem interval?_of_zero (hpos : 0 < health) (h : periodOf health update k = 0) :
    (ofMillis health update).interval? k = none := by
  rw [ofMillis, interval?_of]
  cases k with
  | health => exact absurd h (Nat.pos_iff_ne_zero.mp hpos)
  | update => exact if_pos ((Duration.isZero_ofMillis update).mpr h)

theorem periodOf_le (k : Check) : periodOf health update k ≤ max health update := by
  cases k with
  | health => exact Nat.le_max_left _ _
  | update => exact Nat.le_max_right _ _

/-- A clock that goes on for one more interval holds new targets. -/
theorem arm?_ofMillis (hroom : m + max health update ≤ Instant.lastMillis) :
    ∃ t, (ofMillis health update).arm? (.ofMillis m) = some t := by
  have hfits {ms : Nat} (h : ms ≤ max health update) :
      (Instant.ofMillis m).add? (.ofMillis ms) ≠ none :=
    Instant.add?_ofMillis.mpr (Instant.holds_some.mpr (by omega))
  exact arm?_of (hfits (Nat.le_max_left _ _)) (hfits (Nat.le_max_right _ _))

end TimerPlan

theorem TimerPlace.start_of_arm? {p : TimerPlan} {now : Instant} (h : p.arm? now = some t) :
    start p now = .choosing t := by
  simp [start, h]

/-! ## 2. Targets are the next beats -/

/-- The checks whose targets are the present moment. -/
def Targets.dueNow (t : Targets) (now : Instant) : Signals :=
  ⟨false, decide (t.of? .health = some now), decide (t.of? .update = some now)⟩

theorem Targets.has_dueNow (t : Targets) (now : Instant) (k : Check) :
    (t.dueNow now).has k = decide (t.of? k = some now) := by
  cases k <;> rfl

theorem Targets.any_dueNow {now : Instant} :
    (t.dueNow now).any = true ↔ ∃ k, t.of? k = some now := by
  rw [Signals.any_iff rfl]
  simp only [has_dueNow, decide_eq_true_eq]

/-- None of the targets is due. -/
theorem Targets.dueNow_of_lt {now : Instant}
    (h : ∀ k target, t.of? k = some target → now < target) : (t.dueNow now).any = false := by
  rw [Bool.eq_false_iff, Ne, any_dueNow]
  rintro ⟨k, hk⟩
  exact absurd (h k now hk) (Nat.lt_irrefl _)

/-- **The targets are the next beats** of a stretch that began at `since`. -/
structure Poised (health update since m : Nat) (t : Targets) : Prop where
  idle : ∀ k, periodOf health update k = 0 → t.of? k = none
  next : ∀ k, 0 < periodOf health update k → ∃ target, t.of? k = some (.ofMillis target) ∧
    NextBeat (periodOf health update k) since m target

namespace Poised

/-- A target is a beat that comes next. -/
theorem of_target (h : Poised health update since m t) {target : Instant}
    (ht : t.of? k = some target) : 0 < periodOf health update k ∧ ∃ n, target = .ofMillis n ∧
      NextBeat (periodOf health update k) since m n := by
  rcases Nat.eq_zero_or_pos (periodOf health update k) with hz | hpos
  · rw [h.idle k hz] at ht
    exact nomatch ht
  · obtain ⟨n, hn, hnext⟩ := h.next k hpos
    rw [hn] at ht
    exact ⟨hpos, n, (Option.some.inj ht).symm, hnext⟩

theorem armed (hpos : 0 < health)
    (h : (TimerPlan.ofMillis health update).arm? (.ofMillis m) = some t) :
    Poised health update m m t where
  idle k hz := by
    rw [TimerPlan.arm?_of? h, TimerPlan.interval?_of_zero hpos hz]
    rfl
  next k hk := by
    refine ⟨m + periodOf health update k, ?_, .of_add hk (Or.inl rfl)⟩
    rw [TimerPlan.arm?_of? h, TimerPlan.interval?_of_pos hk, Option.map_some, Instant.ofMillis_add]

theorem later (h : Poised health update since m t) (hle : m ≤ n)
    (hn : ∀ k target, t.of? k = some target → .ofMillis n ≤ target) :
    Poised health update since n t where
  idle := h.idle
  next k hk := by
    obtain ⟨target, ht, hnext⟩ := h.next k hk
    exact ⟨target, ht, hnext.later hle (Instant.ofMillis_le.mp (hn k _ ht))⟩

/-- Once time has passed, the checks whose targets are the present moment are those that are due. -/
theorem dueNow_eq (h : Poised health update since m t) (hlt : m < n)
    (hn : ∀ k target, t.of? k = some target → .ofMillis n ≤ target) :
    t.dueNow (.ofMillis n) = dueAt health update since n := by
  refine Signals.ext_has rfl fun k => ?_
  rw [Targets.has_dueNow, has_dueAt]
  rcases Nat.eq_zero_or_pos (periodOf health update k) with hz | hpos
  · rw [h.idle k hz, hz, isBeat_zero]
    rfl
  · obtain ⟨target, ht, hnext⟩ := h.next k hpos
    rw [ht, hnext.isBeat_eq hlt (Instant.ofMillis_le.mp (hn k _ ht))]
    simp [Instant.ofMillis_inj]

/-- Before the next target nothing is due. -/
theorem not_due (h : Poised health update since m t) (hlt : m < n)
    (hn : ∀ k target, t.of? k = some target → .ofMillis n < target) :
    (dueAt health update since n).any = false := by
  rw [← h.dueNow_eq hlt fun k target ht => Nat.le_of_lt (hn k target ht)]
  exact Targets.dueNow_of_lt hn

/-- A target at the present moment is due. -/
theorem due (h : Poised health update since m t) (hdue : (t.dueNow (.ofMillis m)).any = true) :
    (dueAt health update since m).any = true := by
  obtain ⟨k, hk⟩ := Targets.any_dueNow.mp hdue
  obtain ⟨-, n, hn, hnext⟩ := h.of_target hk
  obtain rfl := Instant.ofMillis_inj.mp hn
  exact any_dueAt hnext.beat

theorem lt_of_not_due (h : Poised health update since m t)
    (hnot : (t.dueNow (.ofMillis m)).any = false) {target : Instant}
    (ht : t.of? k = some target) : .ofMillis m < target := by
  obtain ⟨-, n, rfl, hnext⟩ := h.of_target ht
  rw [Instant.ofMillis_lt]
  refine Nat.lt_of_le_of_ne hnext.le ?_
  rintro rfl
  rw [Targets.any_dueNow.mpr ⟨k, ht⟩] at hnot
  exact nomatch hnot

/-- At the beginning of a stretch nothing is due. -/
theorem lt_of_since (h : Poised health update m m t) {target : Instant}
    (ht : t.of? k = some target) : .ofMillis m < target := by
  obtain ⟨-, n, rfl, hnext⟩ := h.of_target ht
  rw [Instant.ofMillis_lt]
  refine Nat.lt_of_le_of_ne hnext.le ?_
  rintro rfl
  exact absurd (hnext.beat.symm.trans isBeat_self) Bool.noConfusion

/-- It waits until the target itself. -/
theorem wake_earliest (h : Poised health update since m t) : t.earliest.wake = t.earliest := by
  obtain ⟨k, hk⟩ := t.exists_earliest
  obtain ⟨-, n, hn, -⟩ := h.of_target hk
  rw [hn, Instant.wake_ofMillis]

/-- A timer that goes on with a target has one at the present moment. -/
theorem due_of_wake (h : Poised health update since m t) (hw : t.earliest.wake ≤ .ofMillis m) :
    (t.dueNow (.ofMillis m)).any = true := by
  obtain ⟨k, hk⟩ := t.exists_earliest
  obtain ⟨-, n, hn, hnext⟩ := h.of_target hk
  rw [h.wake_earliest, hn, Instant.ofMillis_le] at hw
  obtain rfl := Nat.le_antisymm hw hnext.le
  exact Targets.any_dueNow.mpr ⟨k, hk.trans (congrArg some hn)⟩

/-- What counting does to a kind. -/
theorem counted (h : Poised health update since m t)
    (hroom : m + max health update ≤ Instant.lastMillis) {flag : Bool} {next : Option Instant}
    (hc : t.Counted (.ofMillis health update) (.ofMillis m) k flag next) :
    flag = decide (t.of? k = some (.ofMillis m)) ∧
      (periodOf health update k = 0 → next = none) ∧
      (0 < periodOf health update k → ∃ target, next = some (.ofMillis target) ∧
        NextBeat (periodOf health update k) since m target ∧ target ≠ m) := by
  have hle : periodOf health update k ≤ max health update := TimerPlan.periodOf_le k
  cases hc with
  | due ho hi hdue ha =>
    obtain ⟨hk, n, rfl, hnext⟩ := h.of_target ho
    obtain rfl := Nat.le_antisymm (Instant.ofMillis_le.mp hdue) hnext.le
    rw [TimerPlan.interval?_of_pos hk] at hi
    obtain rfl := Option.some.inj hi
    rw [advance?_ofMillis hk (by omega)] at ha
    refine ⟨(decide_eq_true ho).symm, fun hz => absurd hz (by omega), fun _ => ?_⟩
    exact ⟨_, ha.symm, .of_add hk (Or.inr hnext.beat), by omega⟩
  | early ho hnot =>
    obtain ⟨hk, n, rfl, hnext⟩ := h.of_target ho
    rw [Instant.ofMillis_le] at hnot
    refine ⟨?_, fun hz => absurd hz (by omega), fun _ => ⟨n, rfl, hnext, by omega⟩⟩
    rw [ho]
    simp only [Option.some.injEq, Instant.ofMillis_inj]
    exact (decide_eq_false (by omega)).symm
  | idle hnone =>
    have hz : periodOf health update k = 0 := by
      rcases Nat.eq_zero_or_pos (periodOf health update k) with hz | hk
      · exact hz
      · obtain ⟨target, ht, -⟩ := h.next k hk
        rw [TimerPlan.interval?_of_pos hk, ht] at hnone
        exact hnone.elim nofun nofun
    rw [h.idle k hz]
    exact ⟨rfl, fun _ => rfl, fun hk => absurd hz (by omega)⟩

/-- **Counting raises what is due, and moves its targets on** to the beats after it. -/
theorem fire (h : Poised health update since m t)
    (hroom : m + max health update ≤ Instant.lastMillis) :
    ∃ t', t.fire? (.ofMillis health update) (.ofMillis m) = some (t.dueNow (.ofMillis m), t') ∧
      Poised health update since m t' ∧ (t'.dueNow (.ofMillis m)).any = false := by
  have hsome : (t.fire? (.ofMillis health update) (.ofMillis m)).isSome = true := by
    refine Targets.fire?_isSome fun k target interval ho hi hdue => ?_
    have hle : periodOf health update k ≤ max health update := TimerPlan.periodOf_le k
    obtain ⟨hk, n, rfl, hnext⟩ := h.of_target ho
    obtain rfl := Nat.le_antisymm (Instant.ofMillis_le.mp hdue) hnext.le
    rw [TimerPlan.interval?_of_pos hk] at hi
    obtain rfl := Option.some.inj hi
    rw [advance?_ofMillis hk (by omega)]
    rfl
  obtain ⟨⟨checks, t'⟩, hf⟩ := Option.isSome_iff_exists.mp hsome
  have hcounted (k : Check) := h.counted hroom (Targets.fire?_of? hf k)
  have hchecks : checks = t.dueNow (.ofMillis m) := by
    refine Signals.ext_has (Targets.fire?_stop hf) fun k => ?_
    rw [(hcounted k).1, Targets.has_dueNow]
  have hnext : Poised health update since m t' := by
    refine ⟨fun k => (hcounted k).2.1, fun k hk => ?_⟩
    obtain ⟨target, ht, hn, -⟩ := (hcounted k).2.2 hk
    exact ⟨target, ht, hn⟩
  refine ⟨t', hchecks ▸ hf, hnext, ?_⟩
  rw [Bool.eq_false_iff, Ne, Targets.any_dueNow]
  rintro ⟨k, hk⟩
  obtain ⟨hp, -⟩ := hnext.of_target hk
  obtain ⟨target, ht, -, hne⟩ := (hcounted k).2.2 hp
  rw [ht, Option.some.injEq, Instant.ofMillis_inj] at hk
  exact hne hk

end Poised

/-! ## 3. The places of the timer -/

/-- The targets of a timer that waits, or is about to, or was woken from it. -/
def TimerPlace.waiting? : TimerPlace → Option Targets
  | .choosing targets | .parked targets | .notified targets => some targets
  | _ => none

/-- What a timer will still raise at a moment. -/
def TimerPlace.pending (now : Instant) : TimerPlace → Signals
  | .raising checks _ => checks
  | .choosing targets | .parked targets | .notified targets | .due targets | .counting targets
  | .ringing targets => targets.dueNow now
  | .finished | .failed => .none

theorem TimerPlace.pending_of_waiting {place : TimerPlace} {now : Instant}
    (h : place.waiting? = some t) : place.pending now = t.dueNow now := by
  cases place with
  | choosing targets | parked targets | notified targets =>
    obtain rfl := Option.some.inj h
    rfl
  | _ => exact nomatch h

/-- A timer that can do nothing has ended, or is parked with no wake and no target that is due. -/
theorem TimerPlace.step?_eq_none {p : TimerPlan} {w : WaiterId} {now : Instant} {c : Coordinator}
    {place : TimerPlace} (h : place.step? p w now c = none) : place.hasEnded = true ∨
      ∃ t, place = .parked t ∧ c.timerWake.isChosen w = false ∧ ¬ t.earliest.wake ≤ now := by
  cases place with
  | parked t =>
    refine Or.inr ⟨t, rfl, ?_⟩
    cases hc : c.timerWake.isChosen w with
    | true => simp [step?, hc] at h
    | false =>
      refine ⟨rfl, fun hd => ?_⟩
      simp [step?, hc, hd] at h
  | finished | failed => exact Or.inl rfl
  | _ => exact absurd h (Option.some_ne_none _)

/-- **Where a timer stands that is never late**, in the stretch `e`; the flag is whether it does not
know of the stretch yet. -/
inductive Stands (health update : Nat) (e : Epoch) (m : Nat) : Bool → TimerPlace → Prop
  | waiting {place : TimerPlace} {t : Targets} : place.waiting? = some t →
      Poised health update e.since m t → Stands health update e m false place
  | unaware {place : TimerPlace} {t : Targets} : place.waiting? = some t → e.since = m →
      (∀ k target, t.of? k = some target → .ofMillis m < target) →
      Stands health update e m true place
  | due {t : Targets} : Poised health update e.since m t → (t.dueNow (.ofMillis m)).any = true →
      Stands health update e m false (.due t)
  | counting {t : Targets} : Poised health update e.since m t →
      (t.dueNow (.ofMillis m)).any = true → Stands health update e m false (.counting t)
  | raising {checks : Signals} {t : Targets} : Poised health update e.since m t →
      (t.dueNow (.ofMillis m)).any = false → checks.any = true →
      (dueAt health update e.since m).any = true →
      Stands health update e m false (.raising checks t)
  | ringing {t : Targets} : Poised health update e.since m t →
      (t.dueNow (.ofMillis m)).any = false → (dueAt health update e.since m).any = true →
      Stands health update e m false (.ringing t)
  | ended {changed : Bool} : e.phase = .stop → Stands health update e m changed .finished

/-- Checks that were raised and accepted, and when. -/
def Crew.tick? : Instant × Crew.Event → Option (Nat × Signals)
  | (now, .ticked checks true) => some (now.millis, checks)
  | _ => none

/-- What a timer that stands at a place will still raise at a millisecond, if its phase lets it. -/
def pendingTick (e : Epoch) (m : Nat) (place : TimerPlace) : List (Nat × Signals) :=
  if e.phase = .run ∧ (place.pending (.ofMillis m)).any = true then
    [(m, place.pending (.ofMillis m))]
  else []

theorem pendingTick_of_pending {e : Epoch} {place : TimerPlace}
    (h : (place.pending (.ofMillis m)).any = false) : pendingTick e m place = [] := by
  simp [pendingTick, h]

theorem pendingTick_congr {e : Epoch} {place place' : TimerPlace}
    (h : place'.pending (.ofMillis m) = place.pending (.ofMillis m)) :
    pendingTick e m place' = pendingTick e m place := by
  simp [pendingTick, h]

theorem pendingTick_of_phase {e : Epoch} {place : TimerPlace} (h : e.phase ≠ .run) :
    pendingTick e m place = [] := by
  simp [pendingTick, h]

open Crew in
/-- A timer raises checks only from the place where it is about to. -/
theorem tick?_deed {c : Coordinator} {place : TimerPlace} {now : Instant}
    (h : ∀ checks t, place ≠ .raising checks t) : tick? (now, deed c place) = none := by
  cases place with
  | raising checks t => exact absurd rfl (h checks t)
  | notified t =>
    unfold deed
    dsimp only
    split <;> rfl
  | _ => rfl

namespace Stands

variable {e : Epoch} {changed : Bool} {place place' : TimerPlace} {c c' : Coordinator}
  {w : WaiterId}

theorem of_due (h : Stands health update e m changed (.due t)) : changed = false ∧
    Poised health update e.since m t ∧ (t.dueNow (.ofMillis m)).any = true := by
  cases h with
  | waiting ht _ => exact nomatch ht
  | unaware ht _ _ => exact nomatch ht
  | due hpoised hany => exact ⟨rfl, hpoised, hany⟩

theorem of_counting (h : Stands health update e m changed (.counting t)) : changed = false ∧
    Poised health update e.since m t ∧ (t.dueNow (.ofMillis m)).any = true := by
  cases h with
  | waiting ht _ => exact nomatch ht
  | unaware ht _ _ => exact nomatch ht
  | counting hpoised hany => exact ⟨rfl, hpoised, hany⟩

theorem of_raising {checks : Signals} (h : Stands health update e m changed (.raising checks t)) :
    changed = false ∧ Poised health update e.since m t ∧
      (t.dueNow (.ofMillis m)).any = false ∧ checks.any = true ∧
      (dueAt health update e.since m).any = true := by
  cases h with
  | waiting ht _ => exact nomatch ht
  | unaware ht _ _ => exact nomatch ht
  | raising hpoised hnot hany hdue => exact ⟨rfl, hpoised, hnot, hany, hdue⟩

theorem of_ringing (h : Stands health update e m changed (.ringing t)) : changed = false ∧
    Poised health update e.since m t ∧ (t.dueNow (.ofMillis m)).any = false := by
  cases h with
  | waiting ht _ => exact nomatch ht
  | unaware ht _ _ => exact nomatch ht
  | ringing hpoised hnot _ => exact ⟨rfl, hpoised, hnot⟩

/-- A step after which the timer waits or is about to, as before it. -/
theorem waits (h : Stands health update e m changed place) (ht : place.waiting? = some t)
    (ht' : place'.waiting? = some t) :
    Stands health update e m changed place' ∧ pendingTick e m place' = pendingTick e m place := by
  refine ⟨?_, pendingTick_congr ?_⟩
  · cases h with
    | waiting hw hpoised =>
      obtain rfl := Option.some.inj (hw.symm.trans ht)
      exact .waiting ht' hpoised
    | unaware hw hsince hlater =>
      obtain rfl := Option.some.inj (hw.symm.trans ht)
      exact .unaware ht' hsince hlater
    | _ => exact nomatch ht
  · rw [TimerPlace.pending_of_waiting ht, TimerPlace.pending_of_waiting ht']

/-- A timer that goes on with a target knows of the stretch, and the target is a beat. -/
theorem goes (h : Stands health update e m changed place) (ht : place.waiting? = some t)
    (hdue : t.earliest.wake ≤ .ofMillis m) :
    Stands health update e m changed (.due t) ∧
      pendingTick e m (.due t) = pendingTick e m place := by
  refine ⟨?_, pendingTick_congr ?_⟩
  · cases h with
    | waiting hw hpoised =>
      obtain rfl := Option.some.inj (hw.symm.trans ht)
      exact .due hpoised (hpoised.due_of_wake hdue)
    | unaware hw _ hlater =>
      obtain rfl := Option.some.inj (hw.symm.trans ht)
      obtain ⟨k, hk⟩ := Targets.exists_earliest _
      have hle := Nat.le_trans (Instant.le_wake _) hdue
      exact absurd (hlater k _ hk) (Nat.not_lt.mpr hle)
    | _ => exact nomatch ht
  · rw [TimerPlace.pending_of_waiting ht]
    rfl

/-- A timer that sets its targets at the beginning of a stretch. -/
theorem start (hpos : 0 < health) (hroom : m + max health update ≤ Instant.lastMillis)
    (hsince : e.since = m) :
    Stands health update e m false (.start (.ofMillis health update) (.ofMillis m)) ∧
      pendingTick e m (.start (.ofMillis health update) (.ofMillis m)) = [] := by
  obtain ⟨t, ht⟩ := TimerPlan.arm?_ofMillis hroom
  have hpoised := Poised.armed hpos ht
  rw [TimerPlace.start_of_arm? ht]
  refine ⟨.waiting rfl (hsince ▸ hpoised), pendingTick_of_pending ?_⟩
  exact Targets.dueNow_of_lt fun k target => hpoised.lt_of_since

/-- A timer that takes notice of a new stretch sets its targets anew, or ends. -/
theorem notices (h : Stands health update e m true (.notified t)) (hp : c.phase = e.phase)
    (hpos : 0 < health) (hroom : m + max health update ≤ Instant.lastMillis) :
    Stands health update e m false
      (if c.phase = .stop then .finished else .start (.ofMillis health update) (.ofMillis m)) ∧
    pendingTick e m (.notified t) = pendingTick e m
      (if c.phase = .stop then .finished else .start (.ofMillis health update) (.ofMillis m)) := by
  cases h with
  | unaware hw hsince hlater =>
    obtain rfl := Option.some.inj hw
    have hnone : pendingTick e m (.notified t) = [] :=
      pendingTick_of_pending (Targets.dueNow_of_lt hlater)
    rw [hnone]
    split
    next hs => exact ⟨.ended (hp ▸ hs), (pendingTick_of_pending rfl).symm⟩
    next hs =>
      obtain ⟨hstands, hpending⟩ := start (e := e) hpos hroom hsince
      exact ⟨hstands, hpending.symm⟩

/-- What is raised is what was pending. -/
theorem raises {checks : Signals} (h : Stands health update e m changed (.raising checks t))
    (hp : c.phase = e.phase) :
    Stands health update e m changed (TimerPlace.raise checks t c).1 ∧
    pendingTick e m (.raising checks t)
      = (Crew.tick? (.ofMillis m, Crew.deed c (.raising checks t))).toList ++
        pendingTick e m (TimerPlace.raise checks t c).1 := by
  obtain ⟨rfl, hpoised, hnot, hany, hdue⟩ := h.of_raising
  rcases TimerPlace.raise_cases checks t c with ⟨c₁, ha, hc⟩ | ⟨ha, hc⟩
  · obtain ⟨hrun, -⟩ := Coordinator.addSignals?_eq_some.mp ha
    rw [hc]
    refine ⟨.ringing hpoised hnot hdue, ?_⟩
    have hnone : pendingTick e m (.ringing t) = [] := pendingTick_of_pending hnot
    rw [hnone]
    have hrun' : e.phase = .run := hp ▸ hrun
    simp [pendingTick, TimerPlace.pending, hany, hrun, hrun', Crew.deed, Crew.tick?,
      Instant.millis_ofMillis]
  · have hstill : e.phase ≠ .run := by
      intro hrun
      rw [Coordinator.addSignals?, if_pos (hp.trans hrun)] at ha
      exact nomatch ha
    rw [hc, pendingTick_of_phase hstill, pendingTick_of_phase hstill]
    have hstill' : c.phase ≠ .run := hp ▸ hstill
    exact ⟨.waiting rfl hpoised, by simp [Crew.deed, Crew.tick?, hstill']⟩

/-- **No step of the timer makes it late, and what it will still raise stays the same until it is
raised.** -/
theorem timed (h : Stands health update e m c.phaseChanged place) (hp : c.phase = e.phase)
    (hpos : 0 < health) (hroom : m + max health update ≤ Instant.lastMillis)
    (hm : place.Moves (.ofMillis health update) w (.ofMillis m) c place' c') :
    Stands health update e m c'.phaseChanged place' ∧
    pendingTick e m place
      = (Crew.tick? (.ofMillis m, Crew.deed c place)).toList ++ pendingTick e m place' := by
  have hquiet (hplace : ∀ checks t, place ≠ .raising checks t)
      (hto : Stands health update e m c'.phaseChanged place' ∧
        pendingTick e m place' = pendingTick e m place) :
      Stands health update e m c'.phaseChanged place' ∧
      pendingTick e m place
        = (Crew.tick? (.ofMillis m, Crew.deed c place)).toList ++ pendingTick e m place' := by
    rw [tick?_deed hplace]
    exact ⟨hto.1, hto.2.symm⟩
  cases hm with
  | choose targets =>
    refine hquiet nofun ?_
    rcases TimerPlace.choose_cases targets c w with ⟨n, -, hc⟩ | ⟨-, hc⟩ <;> rw [hc] <;>
      exact h.waits rfl rfl
  | overdue hdue => exact hquiet nofun (h.goes rfl hdue)
  | resume _ => exact hquiet nofun (h.waits rfl rfl)
  | expire hdue => exact hquiet nofun (h.goes rfl hdue)
  | notice targets =>
    refine hquiet nofun ?_
    cases hch : c.phaseChanged with
    | false =>
      rw [TimerPlace.notice_of_unchanged targets hch]
      exact h.waits rfl rfl
    | true =>
      rw [hch] at h
      rw [TimerPlace.notice_of_changed targets hch]
      obtain ⟨hstands, hpending⟩ := h.notices hp hpos hroom
      exact ⟨hstands, hpending.symm⟩
  | goOn targets =>
    refine hquiet nofun ?_
    obtain ⟨hch, hpoised, hany⟩ := h.of_due
    rw [hch]
    unfold TimerPlace.goOn
    split
    next hs =>
      have hstop : e.phase = .stop := hp ▸ hs
      have hstill : e.phase ≠ .run := by
        rw [hstop]
        exact nofun
      rw [pendingTick_of_phase hstill, pendingTick_of_phase hstill]
      exact ⟨.ended hstop, rfl⟩
    next => exact ⟨.counting hpoised hany, pendingTick_congr rfl⟩
  | count targets =>
    refine hquiet nofun ?_
    obtain ⟨hch, hpoised, hany⟩ := h.of_counting
    obtain ⟨t', hf, hnext, hnot⟩ := hpoised.fire hroom
    unfold TimerPlace.count
    rw [hch, hf]
    dsimp only
    rw [if_pos hany]
    exact ⟨.raising hnext hnot hany (hpoised.due hany), pendingTick_congr rfl⟩
  | raise checks targets =>
    have hch : (TimerPlace.raise checks targets c).2.phaseChanged = c.phaseChanged := by
      rcases TimerPlace.raise_cases checks targets c with ⟨c₁, ha, hc⟩ | ⟨-, hc⟩
      · obtain ⟨-, rfl⟩ := Coordinator.addSignals?_eq_some.mp ha
        rw [hc]
      · rw [hc]
    rw [hch]
    exact h.raises hp
  | ring targets =>
    refine hquiet nofun ?_
    obtain ⟨hch, hpoised, -⟩ := h.of_ringing
    have hch' : c.wakeSupervisor.phaseChanged = false := hch
    rw [hch']
    exact ⟨.waiting rfl hpoised, pendingTick_congr rfl⟩

/-! What other tasks and the clock do. -/

/-- A change of phase finds no target that is due, and the timer does not know of it at first. -/
theorem called (h : Stands health update e m changed place) (e' : Epoch)
    (hgoing : e.phase ≠ .stop)
    (hclear : (dueAt health update e.since m).any = false) (hsince : e'.since = m) :
    Stands health update e' m true place ∧ pendingTick e' m place = pendingTick e m place := by
  have hquiet {t : Targets} (ht : place.waiting? = some t)
      (hlater : ∀ k target, t.of? k = some target → .ofMillis m < target) :
      Stands health update e' m true place ∧ pendingTick e' m place = pendingTick e m place := by
    have hnone : (place.pending (.ofMillis m)).any = false := by
      rw [TimerPlace.pending_of_waiting ht]
      exact Targets.dueNow_of_lt hlater
    rw [pendingTick_of_pending hnone, pendingTick_of_pending hnone]
    exact ⟨.unaware ht hsince hlater, rfl⟩
  cases h with
  | waiting ht hpoised =>
    refine hquiet ht fun k target hk => hpoised.lt_of_not_due ?_ hk
    rw [Bool.eq_false_iff]
    intro hdue
    exact absurd (hclear.symm.trans (hpoised.due hdue)) Bool.false_ne_true
  | unaware ht _ hlater => exact hquiet ht hlater
  | due hpoised hany | counting hpoised hany =>
    exact absurd (hclear.symm.trans (hpoised.due hany)) Bool.false_ne_true
  | raising _ _ _ hdue | ringing _ _ hdue =>
    exact absurd (hclear.symm.trans hdue) Bool.false_ne_true
  | ended hstop => exact absurd hstop hgoing

/-- A timer that can do nothing, and has seen each change of phase, waits for a target to come, or
has ended. -/
theorem settled (h : Stands health update e m changed place)
    (hstep : place.step? (.ofMillis health update) w (.ofMillis m) c = none)
    (hseen : changed = false ∨ place.hasEnded = true) :
    (∃ t, place = .parked t ∧ changed = false ∧ Poised health update e.since m t ∧
      ∀ k target, t.of? k = some target → .ofMillis m < target) ∨
    place = .finished ∧ e.phase = .stop := by
  rcases TimerPlace.step?_eq_none hstep with hended | ⟨t, rfl, -, hnot⟩
  · cases h with
    | ended hstop => exact Or.inr ⟨rfl, hstop⟩
    | waiting ht _ | unaware ht _ _ =>
      cases place with
      | finished | failed => exact nomatch ht
      | _ => exact nomatch hended
    | _ => exact nomatch hended
  · obtain rfl : changed = false := hseen.elim id Bool.noConfusion
    cases h with
    | waiting ht hpoised =>
      obtain rfl := Option.some.inj ht
      refine Or.inl ⟨t, rfl, rfl, hpoised, fun k target hk => ?_⟩
      rw [hpoised.wake_earliest] at hnot
      exact Nat.lt_of_lt_of_le (Nat.not_le.mp hnot) (Targets.earliest_le hk)

/-- Time passes, at most up to the next target: nothing is due on the way, and at its end those
targets are due that the law says. -/
theorem passes (h : Stands health update e m changed place)
    (hstep : place.step? (.ofMillis health update) w (.ofMillis m) c = none)
    (hseen : changed = false ∨ place.hasEnded = true) (hlt : m < n)
    (hn : ∀ deadline, place.deadline? = some deadline → .ofMillis n ≤ deadline) :
    Stands health update e n changed place ∧
    (∀ i, m < i → i < n → e.phase = .run → (dueAt health update e.since i).any = false) ∧
    (e.phase = .run → place.pending (.ofMillis n) = dueAt health update e.since n) := by
  rcases h.settled hstep hseen with ⟨t, rfl, rfl, hpoised, -⟩ | ⟨rfl, hstop⟩
  · have hle (k : Check) (target : Instant) (hk : t.of? k = some target) :
        .ofMillis n ≤ target := by
      have hearliest := hn _ rfl
      rw [hpoised.wake_earliest] at hearliest
      exact Nat.le_trans hearliest (Targets.earliest_le hk)
    refine ⟨.waiting rfl (hpoised.later (Nat.le_of_lt hlt) hle), ?_,
      fun _ => hpoised.dueNow_eq hlt hle⟩
    intro i hmi hin _
    refine hpoised.not_due hmi fun k target hk => ?_
    exact Nat.lt_of_lt_of_le (Instant.ofMillis_lt.mpr hin) (hle k target hk)
  · refine ⟨.ended hstop, fun i _ _ hrun => ?_, fun hrun => ?_⟩ <;>
      exact nomatch hstop.symm.trans hrun

end Stands
end ServerWarden
