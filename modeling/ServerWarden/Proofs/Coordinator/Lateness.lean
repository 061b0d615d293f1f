/-
# A timer that may be late

However late the timer is, and however often, each time that it works out the checks (a `Lap`) it
does the same for each kind of check, whatever becomes of the other (`Kept`).  A target that is due
moves on, by one interval if that is still to come, and else to one interval from now; the flag goes
up once, for any number of intervals that were missed.  A target that is not due stays as it is.  So
every target is later than now afterwards, and by no more than its interval.

* `Laps` says how a timer may come to its targets: it sets them anew, at any moment, or has a lap,
  at any moment from the earliest target on.  `Laps.lawful` is the law for each of them.
* `Crew.Steps.offered` says that a timer has nothing but laps, whatever the other tasks do between
  its steps, and that what it raises is what the laps found, once each.
* `late_laps` puts the two together for the plans that there are.
-/
import ServerWarden.Proofs.Coordinator.Resuming

namespace ServerWarden

/-! ## 1. Laps -/

/-- The targets that the timer worked with, the moment, and what came of it. -/
structure Lap where
  before : Targets
  now : Instant
  checks : Signals
  after : Targets
  deriving DecidableEq, Repr

/-- **`Laps p laps targets?`**: how a timer may come to its targets.  It has none if it could not
start or has ended. -/
inductive Laps (p : TimerPlan) : List Lap → Option Targets → Prop where
  | idle : Laps p [] none
  | armed {laps : List Lap} {targets? : Option Targets} {now : Instant} {t : Targets} :
      Laps p laps targets? → p.arm? now = some t → Laps p laps (some t)
  | lap {laps : List Lap} {t t' : Targets} {now : Instant} {checks : Signals} :
      Laps p laps (some t) → t.earliest ≤ now → t.fire? p now = some (checks, t') →
      Laps p (laps ++ [⟨t, now, checks, t'⟩]) (some t')
  | ended {laps : List Lap} {targets? : Option Targets} : Laps p laps targets? → Laps p laps none

/-- **What becomes of a target at a lap**, for checks that are an interval apart. -/
structure Kept (interval : Duration) (now : Instant) (raised : Bool) (target next : Instant) :
    Prop where
  ahead : now < next
  near : next ≤ now.add interval
  raised : raised = true ↔ target ≤ now
  /-- It was not due. -/
  early : now < target → next = target
  /-- It was due less than an interval ago. -/
  onGrid : target ≤ now → now < target.add interval → next = target.add interval
  /-- It was due an interval ago or more. -/
  missed : target.add interval ≤ now → next = now.add interval

/-- **The law of a lap.** -/
structure Lap.Lawful (p : TimerPlan) (lap : Lap) : Prop where
  noStop : lap.checks.stop = false
  raises : ∃ k, lap.checks.has k = true
  kept : ∀ k interval, p.interval? k = some interval →
    ∃ target next, lap.before.of? k = some target ∧ lap.after.of? k = some next ∧
      Kept interval lap.now (lap.checks.has k) target next
  /-- Of a kind that is not checked there is nothing. -/
  none : ∀ k, p.interval? k = none →
    lap.before.of? k = none ∧ lap.after.of? k = none ∧ lap.checks.has k = false

/-- Each interval of a plan takes some time. -/
def TimerPlan.Positive (p : TimerPlan) : Prop :=
  ∀ k interval, p.interval? k = some interval → Duration.zero < interval

theorem TimerPlan.positive_of {health : Duration} (h : Duration.zero < health)
    (update : Duration) : (TimerPlan.of health update).Positive := by
  intro k interval hk
  cases k with
  | health =>
    obtain rfl := Option.some.inj hk
    exact h
  | update =>
    replace hk : (if update.isZero then none else some update) = some interval := hk
    split at hk
    · exact nomatch hk
    next hz =>
      obtain rfl := Option.some.inj hk
      exact Nat.pos_of_ne_zero fun h0 => hz (beq_iff_eq.mpr h0)

/-! ## 2. The law -/

/-- Of each kind that is checked, the target is later than `last`, and by no more than an
interval. -/
structure Targets.Ahead (p : TimerPlan) (last : Instant) (t : Targets) : Prop where
  none : ∀ k, p.interval? k = none → t.of? k = none
  next : ∀ k interval, p.interval? k = some interval →
    ∃ target, t.of? k = some target ∧ last < target ∧ target ≤ last.add interval

section

variable {p : TimerPlan} {t t' : Targets} {now last target next : Instant} {interval : Duration}
  {checks : Signals} {laps : List Lap} {targets? : Option Targets}

theorem Instant.lt_add (now : Instant) (h : Duration.zero < interval) : now < now.add interval :=
  Nat.lt_add_of_pos_right h

theorem Instant.add_le_add (h : last ≤ now) (interval : Duration) :
    last.add interval ≤ now.add interval :=
  Nat.add_le_add_right h interval.nanos

theorem advance?_eq_some (h : advance? target interval now = some next) :
    next = if target.add interval ≤ now then now.add interval else target.add interval := by
  obtain ⟨later, hlater, h⟩ := Option.bind_eq_some_iff.mp h
  obtain rfl := Instant.add?_eq_some hlater
  split at h
  next hle => rw [if_pos hle, Instant.add?_eq_some h]
  next hle => rw [if_neg hle, Option.some.inj h]

/-- A target that is due. -/
theorem Kept.due (hpos : Duration.zero < interval) (hdue : target ≤ now)
    (h : advance? target interval now = some next) : Kept interval now true target next := by
  have hnext := advance?_eq_some h
  by_cases hle : target.add interval ≤ now
  · rw [if_pos hle] at hnext
    subst hnext
    exact {
      ahead := now.lt_add hpos
      near := Nat.le_refl _
      raised := iff_of_true rfl hdue
      early := fun hlt => absurd hdue (Nat.not_le.mpr hlt)
      onGrid := fun _ hlt => absurd hle (Nat.not_le.mpr hlt)
      missed := fun _ => rfl }
  · rw [if_neg hle] at hnext
    subst hnext
    exact {
      ahead := Nat.not_le.mp hle
      near := Instant.add_le_add hdue interval
      raised := iff_of_true rfl hdue
      early := fun hlt => absurd hdue (Nat.not_le.mpr hlt)
      onGrid := fun _ _ => rfl
      missed := fun h => absurd h hle }

/-- A target that is not due. -/
theorem Kept.not_due (hearly : ¬ target ≤ now) (hnear : target ≤ now.add interval) :
    Kept interval now false target target where
  ahead := Nat.not_le.mp hearly
  near := hnear
  raised := iff_of_false Bool.false_ne_true hearly
  early _ := rfl
  onGrid hdue := absurd hdue hearly
  missed hle := absurd (Nat.le_trans (Instant.le_add target interval) hle) hearly

theorem Targets.Ahead.of_arm? (hpos : p.Positive) (h : p.arm? now = some t) : t.Ahead p now where
  none k hk := by rw [TimerPlan.arm?_of? h, hk, Option.map_none]
  next k interval hk := by
    refine ⟨now.add interval, ?_, now.lt_add (hpos k interval hk), Nat.le_refl _⟩
    rw [TimerPlan.arm?_of? h, hk, Option.map_some]

/-- **One lap**, from targets that are ahead of some moment. -/
theorem Targets.Ahead.lap (h : t.Ahead p last) (hpos : p.Positive) (hdue : t.earliest ≤ now)
    (hfire : t.fire? p now = some (checks, t')) : Lap.Lawful p ⟨t, now, checks, t'⟩ := by
  obtain ⟨first, hfirst⟩ := t.exists_earliest
  obtain ⟨interval₁, hinterval₁⟩ : ∃ interval, p.interval? first = some interval := by
    rw [← Option.ne_none_iff_exists']
    intro hnone
    exact nomatch (h.none first hnone).symm.trans hfirst
  have hlast : last ≤ now := by
    obtain ⟨target, htarget, hlt, -⟩ := h.next first interval₁ hinterval₁
    obtain rfl := Option.some.inj (hfirst.symm.trans htarget)
    exact Nat.le_of_lt (Nat.lt_of_lt_of_le hlt hdue)
  have hkept (k : Check) (interval : Duration) (hk : p.interval? k = some interval) :
      ∃ target next, t.of? k = some target ∧ t'.of? k = some next ∧
        Kept interval now (checks.has k) target next := by
    obtain ⟨target, htarget, -, hnear⟩ := h.next k interval hk
    have hcounted := Targets.fire?_of? hfire k
    generalize hflag : checks.has k = flag at hcounted
    generalize hafter : t'.of? k = next? at hcounted
    cases hcounted with
    | due ho hi hd ha =>
      obtain rfl := Option.some.inj (ho.symm.trans htarget)
      obtain rfl := Option.some.inj (hi.symm.trans hk)
      exact ⟨_, _, ho, rfl, .due (hpos k _ hk) hd ha⟩
    | early ho hearly =>
      obtain rfl := Option.some.inj (ho.symm.trans htarget)
      exact ⟨_, _, ho, rfl,
        .not_due hearly (Nat.le_trans hnear (Instant.add_le_add hlast interval))⟩
    | idle hidle =>
      rcases hidle with hidle | hidle
      · exact nomatch hidle.symm.trans htarget
      · exact nomatch hidle.symm.trans hk
  refine ⟨Targets.fire?_stop hfire, ⟨first, ?_⟩, hkept, ?_⟩
  · obtain ⟨target, next, htarget, -, hk⟩ := hkept first interval₁ hinterval₁
    obtain rfl := Option.some.inj (hfirst.symm.trans htarget)
    exact hk.raised.mpr hdue
  · intro k hk
    have hbefore := h.none k hk
    have hcounted := Targets.fire?_of? hfire k
    generalize hflag : checks.has k = flag at hcounted
    generalize hafter : t'.of? k = next? at hcounted
    cases hcounted with
    | due ho _ _ _ => exact nomatch ho.symm.trans hbefore
    | early ho _ => exact nomatch ho.symm.trans hbefore
    | idle _ => exact ⟨hbefore, hbefore, rfl⟩

theorem Lap.Lawful.ahead {lap : Lap} (h : lap.Lawful p) : lap.after.Ahead p lap.now where
  none k hk := (h.none k hk).2.1
  next k interval hk := by
    obtain ⟨_, next, -, hnext, hkept⟩ := h.kept k interval hk
    exact ⟨next, hnext, hkept.ahead, hkept.near⟩

/-- **Each lap is lawful**, and the targets are always ahead of the last of them. -/
theorem Laps.lawful (h : Laps p laps targets?) (hpos : p.Positive) :
    (∀ lap ∈ laps, lap.Lawful p) ∧ ∀ t, targets? = some t → ∃ last, t.Ahead p last := by
  induction h with
  | idle => exact ⟨nofun, nofun⟩
  | armed _ harm ih =>
    refine ⟨ih.1, fun t ht => ?_⟩
    obtain rfl := Option.some.inj ht
    exact ⟨_, .of_arm? hpos harm⟩
  | ended _ ih => exact ⟨ih.1, nofun⟩
  | lap _ hdue hfire ih =>
    obtain ⟨last, hahead⟩ := ih.2 _ rfl
    have hlap := hahead.lap hpos hdue hfire
    refine ⟨fun lap hmem => ?_, fun t ht => ?_⟩
    · rcases List.mem_append.mp hmem with hmem | hmem
      · exact ih.1 lap hmem
      · obtain rfl := List.mem_singleton.mp hmem
        exact hlap
    · obtain rfl := Option.some.inj ht
      exact ⟨_, hlap.ahead⟩

theorem Instant.add?_mono (hle : last ≤ now) (h : now.add? interval ≠ none) :
    last.add? interval ≠ none := by
  rw [Instant.add?_ne_none] at h ⊢
  exact Nat.lt_of_le_of_lt (Nat.div_le_div_right (Instant.add_le_add hle interval)) h

theorem TimerPlan.add?_of_arm? (h : p.arm? now = some t) {k : Check}
    (hk : p.interval? k = some interval) : now.add? interval ≠ none := by
  obtain ⟨health, hhealth, h⟩ := Option.bind_eq_some_iff.mp h
  obtain ⟨p₁, p₂⟩ := p
  cases k with
  | health =>
    obtain rfl := Option.some.inj hk
    exact Option.ne_none_iff_exists'.mpr ⟨health, hhealth⟩
  | update =>
    obtain rfl : p₂ = some interval := hk
    obtain ⟨update, hupdate, -⟩ := Option.bind_eq_some_iff.mp h
    exact Option.ne_none_iff_exists'.mpr ⟨update, hupdate⟩

theorem advance?_isSome (hdue : target ≤ now) (h : now.add? interval ≠ none) :
    (advance? target interval now).isSome = true := by
  obtain ⟨later, hlater⟩ := Option.ne_none_iff_exists'.mp (Instant.add?_mono hdue h)
  obtain ⟨anew, hanew⟩ := Option.ne_none_iff_exists'.mp h
  rw [advance?, hlater, hanew]
  show (if later ≤ now then some anew else some later).isSome = true
  split <;> rfl

/-- A lap does not fail where targets could be set anew: what is due moves on to one interval from
now at the latest. -/
theorem Targets.fire?_of_arm? (t : Targets) (h : p.arm? now ≠ none) : t.fire? p now ≠ none := by
  obtain ⟨anew, harm⟩ := Option.ne_none_iff_exists'.mp h
  rw [← Option.isSome_iff_ne_none]
  exact Targets.fire?_isSome fun k target interval _ hk hdue =>
    advance?_isSome hdue (TimerPlan.add?_of_arm? harm hk)

end

/-! ## 3. What a timer does -/

/-- The checks that a timer is about to raise. -/
def TimerPlace.offer : TimerPlace → List Signals
  | .raising checks _ => [checks]
  | _ => []

/-- The targets of a timer that has found one due. -/
def TimerPlace.overdue? : TimerPlace → Option Targets
  | .due targets | .counting targets => some targets
  | _ => none

section

variable {p : TimerPlan} {w : WaiterId} {now : Instant} {laps : List Lap} {t : Targets}
  {c c' : Coordinator} {place place' : TimerPlace}

/-- A timer that had some laps has had at most one more, and is about to raise what that one found;
and a target that it found due is. -/
structure Laps.Next (p : TimerPlan) (laps : List Lap) (now : Instant) (place : TimerPlace) :
    Prop where
  more : ∃ more, Laps p (laps ++ more) place.targets? ∧ more.map Lap.checks = place.offer
  due : ∀ t, place.overdue? = some t → t.earliest ≤ now

theorem Laps.Next.same (h : Laps p laps place.targets?) (hoffer : place.offer = [])
    (hdue : place.overdue? = none) : Laps.Next p laps now place where
  more := ⟨[], by rwa [List.append_nil], hoffer.symm⟩
  due t ht := nomatch hdue.symm.trans ht

theorem Laps.Next.expired (h : Laps p laps (some t)) (hwake : t.earliest.wake ≤ now) :
    Laps.Next p laps now (.due t) where
  more := ⟨[], by rwa [List.append_nil], rfl⟩
  due t' ht := by
    obtain rfl := Option.some.inj ht
    exact Nat.le_trans t.earliest.le_wake hwake

theorem Laps.Next.started {targets? : Option Targets} (h : Laps p laps targets?) (now : Instant) :
    Laps.Next p laps now (.start p now) := by
  unfold TimerPlace.start
  split
  next t harm => exact .same (h.armed harm) rfl rfl
  next => exact .same h.ended rfl rfl

/-- The step in which the checks are worked out is a lap. -/
theorem Laps.Next.count (h : Laps p laps (some t)) (hpos : p.Positive) (hdue : t.earliest ≤ now) :
    Laps.Next p laps now (TimerPlace.count p t now) := by
  unfold TimerPlace.count
  cases hfire : t.fire? p now with
  | none => exact .same h.ended rfl rfl
  | some found =>
    obtain ⟨checks, t'⟩ := found
    have hlap := h.lap hdue hfire
    have hlawful := (hlap.lawful hpos).1 _ (List.mem_append_right _ (List.mem_singleton_self _))
    have hany : checks.any = true := (Signals.any_iff hlawful.noStop).mpr hlawful.raises
    dsimp only
    rw [if_pos hany]
    exact ⟨⟨[_], hlap, rfl⟩, nofun⟩

/-- **One step of the timer** is a lap, or none. -/
theorem Laps.next_of_moves (h : Laps p laps place.targets?) (hpos : p.Positive)
    (hdue : ∀ t, place.overdue? = some t → t.earliest ≤ now)
    (hm : place.Moves p w now c place' c') : Laps.Next p laps now place' := by
  cases hm with
  | choose targets =>
    rcases TimerPlace.choose_cases targets c w with ⟨n, -, hc⟩ | ⟨-, hc⟩ <;> rw [hc] <;>
      exact .same h rfl rfl
  | overdue hwake => exact .expired h hwake
  | resume _ => exact .same h rfl rfl
  | expire hwake => exact .expired h hwake
  | notice targets =>
    cases hch : c.phaseChanged with
    | false =>
      rw [TimerPlace.notice_of_unchanged targets hch]
      exact .same h rfl rfl
    | true =>
      rw [TimerPlace.notice_of_changed targets hch]
      dsimp only
      split
      · exact .same h.ended rfl rfl
      · exact .started h now
  | goOn targets =>
    unfold TimerPlace.goOn
    split
    · exact .same h.ended rfl rfl
    · exact ⟨⟨[], by rwa [List.append_nil], rfl⟩, hdue⟩
  | count targets => exact .count h hpos (hdue targets rfl)
  | raise checks targets =>
    rcases TimerPlace.raise_cases checks targets c with ⟨c₁, -, hc⟩ | ⟨-, hc⟩ <;> rw [hc] <;>
      exact .same h rfl rfl
  | ring targets => exact .same h rfl rfl

end

namespace Crew

variable {p : TimerPlan} {w : WaiterId} {s s' : Crew} {e : Event} {start : Instant}
  {history : List (Instant × Event)}

/-- The checks that the timer raised, whether or not they were accepted. -/
def Event.offer? : Event → Option Signals
  | .ticked checks _ => some checks
  | _ => none

/-- The checks that the timer raised, in their order. -/
def offers (history : List (Instant × Event)) : List Signals :=
  history.filterMap fun x => x.2.offer?

theorem offer?_deed (c : Coordinator) (place : TimerPlace) :
    (deed c place).offer?.toList = place.offer := by
  cases place with
  | notified targets =>
    simp only [deed]
    split <;> rfl
  | _ => rfl

theorem offer?_of_not_timer (h : e.ofTimer = false) : e.offer? = none := by
  cases e with
  | ticked => exact nomatch h
  | _ => rfl

theorem offers_append (history : List (Instant × Event)) (x : Instant × Event) :
    offers (history ++ [x]) = offers history ++ x.2.offer?.toList := by
  cases h : x.2.offer? <;> simp [offers, List.filterMap_append, h]

/-- What a timer has raised, and what it is about to raise, is what its laps found. -/
structure Offered (p : TimerPlan) (history : List (Instant × Event)) (s : Crew) : Prop where
  laps : ∃ laps, Laps p laps s.timer.targets? ∧
    offers history ++ s.timer.offer = laps.map Lap.checks
  due : ∀ t, s.timer.overdue? = some t → t.earliest ≤ s.now

theorem Offered.of_next {laps : List Lap} (h : Laps.Next p laps s.now s.timer)
    (hoffers : offers history = laps.map Lap.checks) : Offered p history s where
  laps := by
    obtain ⟨more, hmore, hchecks⟩ := h.more
    refine ⟨laps ++ more, hmore, ?_⟩
    rw [hoffers, List.map_append, hchecks]
  due := h.due

theorem Offered.step (h : Offered p history s) (hpos : p.Positive) (hstep : Step p w s e s') :
    Offered p (history ++ [(s.now, e)]) s' := by
  obtain ⟨⟨laps, hlaps, hoffers⟩, hdue⟩ := h
  have hnow := hstep.now_le
  -- the other tasks leave the timer where it is
  have frame (htimer : s'.timer = s.timer) (he : e.ofTimer = false) :
      Offered p (history ++ [(s.now, e)]) s' := by
    refine ⟨⟨laps, htimer ▸ hlaps, ?_⟩, fun t ht => Nat.le_trans (hdue t (htimer ▸ ht)) hnow⟩
    rw [offers_append, offer?_of_not_timer he, htimer, ← hoffers]
    simp
  cases hstep with
  | time hm =>
    refine .of_next (hlaps.next_of_moves hpos hdue hm) ?_
    rw [offers_append, offer?_deed, hoffers]
  | _ => exact frame rfl rfl

/-- **Whatever the other tasks do, a timer has laps and nothing else**, and it raises what each lap
found once; what the last one found it may be about to raise. -/
theorem Steps.offered (hpos : p.Positive) (h : Steps p w (initial p start) history s) :
    Offered p history s := by
  induction h with
  | refl => exact .of_next (Laps.Next.started .idle start) rfl
  | step _ hstep ih => exact ih.step hpos hstep

/-- **Being late makes neither a burst nor a drift.**  Take any positive time between health checks,
and any between update checks or none.  Whenever the timer has its laps and as often as it does,
each is lawful; it does not fail unless one interval from now is more than a clock can hold; and in
each run of a timer with other tasks it has such laps only, and raises what each found once. -/
theorem late_laps {health : Duration} (hpos : Duration.zero < health) (update : Duration) :
    (∀ laps targets?, Laps (.of health update) laps targets? →
      ∀ lap ∈ laps, lap.Lawful (.of health update)) ∧
    (∀ (t : Targets) now, (TimerPlan.of health update).arm? now ≠ none →
      t.fire? (.of health update) now ≠ none) ∧
    ∀ w start history s, Steps (.of health update) w (initial (.of health update) start) history s →
      ∃ laps, Laps (.of health update) laps s.timer.targets? ∧
        offers history ++ s.timer.offer = laps.map Lap.checks := by
  have hpositive := TimerPlan.positive_of hpos update
  exact ⟨fun _ _ hlaps => (hlaps.lawful hpositive).1, fun t _ harm => t.fire?_of_arm? harm,
    fun _ _ _ _ hsteps => (hsteps.offered hpositive).laps⟩

/-- A timer for every 1000 and every 1500 milliseconds wakes at 3600: it raises both checks once,
and goes on from there. -/
theorem late_laps_behind : ∃ history s, ∃ laps : List Lap,
    Steps (.of (.ofMillis 1000) (.ofMillis 1500)) 0
      (initial (.of (.ofMillis 1000) (.ofMillis 1500)) .start) history s ∧
    s.timer = .choosing ⟨.ofMillis 4600, some (.ofMillis 5100)⟩ ∧
    laps.map Lap.checks = [⟨false, true, true⟩] ∧
    ∀ lap ∈ laps, lap.Lawful (.of (.ofMillis 1000) (.ofMillis 1500)) := by
  have hrun := play_steps (p := .of (.ofMillis 1000) (.ofMillis 1500)) (w := 0)
    (s := initial (.of (.ofMillis 1000) (.ofMillis 1500)) .start)
    [.time, .pass (.ofMillis 3600), .time, .time, .time, .time, .time] rfl
  obtain ⟨hlawful, -, hlaps⟩ :=
    late_laps (show Duration.zero < .ofMillis 1000 by decide) (.ofMillis 1500)
  obtain ⟨laps, hl, hoffers⟩ := hlaps _ _ _ _ hrun
  exact ⟨_, _, laps, hrun, rfl, hoffers.symm, hlawful laps _ hl⟩

end Crew
end ServerWarden
