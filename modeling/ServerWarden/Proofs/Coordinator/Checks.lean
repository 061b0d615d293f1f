/-
# Targets, one kind of check at a time

The two kinds of check have an interval, a target and a flag each, and the timer treats both alike.
Here each operation on targets is read for one kind: setting them anew puts the target one interval
from now (`TimerPlan.arm?_of?`), and counting either finds the target due, raises the flag and moves
the target on, or does none of this (`Targets.fire?_of?`).
-/
import ServerWarden.Coordinator.Timer

namespace ServerWarden

/-- What a check is about. -/
inductive Check where
  | health
  | update
  deriving DecidableEq, Repr

def Signals.has (s : Signals) : Check → Bool
  | .health => s.healthCheck
  | .update => s.updateCheck

namespace Signals

theorem any_iff {s : Signals} (h : s.stop = false) : s.any = true ↔ ∃ k, s.has k = true := by
  constructor
  · intro ha
    simp only [any, h, Bool.false_or, Bool.or_eq_true] at ha
    exact ha.elim (fun hh => ⟨.health, hh⟩) (fun hu => ⟨.update, hu⟩)
  · rintro ⟨k, hk⟩
    cases k with
    | health => simp [any, show s.healthCheck = true from hk]
    | update => simp [any, show s.updateCheck = true from hk]

theorem ext_has {s s' : Signals} (hstop : s.stop = s'.stop) (h : ∀ k, s.has k = s'.has k) :
    s = s' := by
  obtain ⟨stop, health, update⟩ := s
  obtain ⟨stop', health', update'⟩ := s'
  obtain rfl : stop = stop' := hstop
  obtain rfl : health = health' := h .health
  obtain rfl : update = update' := h .update
  rfl

end Signals

/-- The time between two checks of a kind, if there are any. -/
def TimerPlan.interval? (p : TimerPlan) : Check → Option Duration
  | .health => some p.healthInterval
  | .update => p.updateInterval

/-- The moment at which the next check of a kind is due, if there is one. -/
def Targets.of? (t : Targets) : Check → Option Instant
  | .health => some t.health
  | .update => t.update

variable {p : TimerPlan} {t t' : Targets} {now target next : Instant} {interval : Duration}
  {checks : Signals} {k : Check}

theorem Instant.add?_eq_some : now.add? interval = some next →
    next = now.add interval := by
  unfold Instant.add?
  intro h
  dsimp only at h
  split at h
  · exact (Option.some.inj h).symm
  · exact nomatch h

theorem Instant.le_add (now : Instant) (interval : Duration) : now ≤ now.add interval :=
  Nat.le_add_right now.nanos interval.nanos

/-- Targets that are set anew are one interval away. -/
theorem TimerPlan.arm?_of? (h : p.arm? now = some t) (k : Check) :
    t.of? k = (p.interval? k).map now.add := by
  obtain ⟨health, hh, h⟩ := Option.bind_eq_some_iff.mp h
  have hhealth : health = now.add p.healthInterval := Instant.add?_eq_some hh
  obtain ⟨p₁, p₂⟩ := p
  cases p₂ with
  | none =>
    cases h
    cases k with
    | health => exact congrArg some hhealth
    | update => rfl
  | some interval =>
    obtain ⟨update, hu, h⟩ := Option.bind_eq_some_iff.mp h
    cases h
    cases k with
    | health => exact congrArg some hhealth
    | update => exact congrArg some (Instant.add?_eq_some hu)

/-- A target only moves on. -/
theorem le_advance? (h : advance? target interval now = some next) (hdue : target ≤ now) :
    target ≤ next := by
  obtain ⟨later, hl, h⟩ := Option.bind_eq_some_iff.mp h
  split at h
  · rw [Instant.add?_eq_some h]
    exact Nat.le_trans hdue (Instant.le_add now interval)
  · obtain rfl := Option.some.inj h
    rw [Instant.add?_eq_some hl]
    exact Instant.le_add target interval

namespace Targets

theorem exists_earliest (t : Targets) : ∃ k, t.of? k = some t.earliest := by
  obtain ⟨health, update⟩ := t
  cases update with
  | none => exact ⟨.health, rfl⟩
  | some update =>
    by_cases hlt : update < health
    · exact ⟨.update, by simp [of?, earliest, Instant.earliest, hlt]⟩
    · exact ⟨.health, by simp [of?, earliest, Instant.earliest, hlt]⟩

theorem earliest_le (h : t.of? k = some target) : t.earliest ≤ target := by
  obtain ⟨health, update⟩ := t
  cases update with
  | none =>
    cases k with
    | health =>
      obtain rfl := Option.some.inj h
      exact Nat.le_refl _
    | update => exact nomatch h
  | some update =>
    simp only [earliest, Instant.earliest]
    cases k with
    | health =>
      obtain rfl := Option.some.inj h
      split
      next hlt => exact Nat.le_of_lt hlt
      next => exact Nat.le_refl _
    | update =>
      obtain rfl := Option.some.inj h
      split
      next => exact Nat.le_refl _
      next hge => exact Nat.not_lt.mp hge

end Targets

/-- What counting does to the checks of a kind. -/
inductive Targets.Counted (p : TimerPlan) (t : Targets) (now : Instant) (k : Check) :
    Bool → Option Instant → Prop where
  | due {target next : Instant} {interval : Duration} : t.of? k = some target →
      p.interval? k = some interval → target ≤ now → advance? target interval now = some next →
      Counted p t now k true (some next)
  | early {target : Instant} : t.of? k = some target → ¬ target ≤ now →
      Counted p t now k false (some target)
  /-- Such checks are not made. -/
  | idle : t.of? k = none ∨ p.interval? k = none → Counted p t now k false (t.of? k)

/-- If nothing was due before `bound`, what is counted is not early, and nothing is due before it
afterwards. -/
theorem Targets.Counted.le {bound : Instant} {flag : Bool} {target? : Option Instant}
    (h : Counted p t now k flag target?) (hold : ∀ target, t.of? k = some target → bound ≤ target) :
    (flag = true → bound ≤ now) ∧ ∀ target, target? = some target → bound ≤ target := by
  cases h with
  | due ho _ hdue ha =>
    refine ⟨fun _ => Nat.le_trans (hold _ ho) hdue, fun target ht => ?_⟩
    obtain rfl := Option.some.inj ht
    exact Nat.le_trans (hold _ ho) (le_advance? ha hdue)
  | early ho _ =>
    refine ⟨nofun, fun target ht => ?_⟩
    obtain rfl := Option.some.inj ht
    exact hold _ ho
  | idle _ => exact ⟨nofun, hold⟩

/-- Health checks are counted first, and update checks after them. -/
theorem Targets.fire?_eq (p : TimerPlan) (t : Targets) (now : Instant) : t.fire? p now =
    (if t.health ≤ now then advance? t.health p.healthInterval now else some t.health).bind
      fun health =>
        match t.update, p.updateInterval with
        | some update, some interval =>
          if update ≤ now then
            (advance? update interval now).bind fun next =>
              some (⟨false, decide (t.health ≤ now), true⟩, ⟨health, some next⟩)
          else some (⟨false, decide (t.health ≤ now), false⟩, ⟨health, some update⟩)
        | update, _ => some (⟨false, decide (t.health ≤ now), false⟩, ⟨health, update⟩) := by
  unfold Targets.fire?
  by_cases hd : t.health ≤ now <;> simp only [hd, decide_true, decide_false, if_true, if_false] <;>
    rfl

theorem Targets.fire?_of? (h : t.fire? p now = some (checks, t')) (k : Check) :
    Counted p t now k (checks.has k) (t'.of? k) := by
  rw [fire?_eq] at h
  obtain ⟨health, hh, h⟩ := Option.bind_eq_some_iff.mp h
  have hhealth : Counted p t now .health (decide (t.health ≤ now)) (some health) := by
    by_cases hd : t.health ≤ now
    · rw [if_pos hd] at hh
      rw [decide_eq_true hd]
      exact .due rfl rfl hd hh
    · rw [if_neg hd] at hh
      obtain rfl := Option.some.inj hh
      rw [decide_eq_false hd]
      exact .early rfl hd
  obtain ⟨t₁, t₂⟩ := t
  obtain ⟨p₁, p₂⟩ := p
  cases t₂ with
  | none =>
    cases h
    cases k with
    | health => exact hhealth
    | update => exact .idle (Or.inl rfl)
  | some update =>
    cases p₂ with
    | none =>
      cases h
      cases k with
      | health => exact hhealth
      | update => exact .idle (Or.inr rfl)
    | some interval =>
      dsimp only at h
      split at h
      next hd =>
        obtain ⟨next, hn, h⟩ := Option.bind_eq_some_iff.mp h
        cases h
        cases k with
        | health => exact hhealth
        | update => exact .due rfl rfl hd hn
      next hd =>
        cases h
        cases k with
        | health => exact hhealth
        | update => exact .early rfl hd

/-- Nothing that is counted asks for a stop. -/
theorem Targets.fire?_stop (h : t.fire? p now = some (checks, t')) : checks.stop = false := by
  rw [fire?_eq] at h
  obtain ⟨health, -, h⟩ := Option.bind_eq_some_iff.mp h
  obtain ⟨t₁, t₂⟩ := t
  obtain ⟨p₁, p₂⟩ := p
  cases t₂ with
  | none =>
    cases h
    rfl
  | some update =>
    cases p₂ with
    | none =>
      cases h
      rfl
    | some interval =>
      dsimp only at h
      split at h
      · obtain ⟨next, -, h⟩ := Option.bind_eq_some_iff.mp h
        cases h
        rfl
      · cases h
        rfl

/-- Counting fails only if a target that is due cannot move on. -/
theorem Targets.fire?_isSome (h : ∀ k target interval, t.of? k = some target →
    p.interval? k = some interval → target ≤ now → (advance? target interval now).isSome = true) :
    (t.fire? p now).isSome = true := by
  have hhealth : ∃ health, (if t.health ≤ now then advance? t.health p.healthInterval now
      else some t.health) = some health := by
    split
    next hd => exact Option.isSome_iff_exists.mp (h .health _ _ rfl rfl hd)
    next => exact ⟨_, rfl⟩
  obtain ⟨health, hh⟩ := hhealth
  rw [fire?_eq, hh, Option.bind_some]
  obtain ⟨t₁, t₂⟩ := t
  obtain ⟨p₁, p₂⟩ := p
  cases t₂ with
  | none => rfl
  | some update =>
    cases p₂ with
    | none => rfl
    | some interval =>
      dsimp only
      split
      next hd =>
        obtain ⟨next, hn⟩ := Option.isSome_iff_exists.mp (h .update _ _ rfl rfl hd)
        rw [hn]
        rfl
      next => rfl

end ServerWarden
