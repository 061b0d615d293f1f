/-
# What a timer that is never late raises

The law, on a clock of whole milliseconds: calls that set phases cut the time into stretches of one
phase (`Epoch`); a check of a kind is due a whole number of intervals after the beginning of a
stretch (`isBeat`); what is due in a stretch in which the timer runs is raised, both kinds at once
if they are due at once (`cadence`).

The law does not mention targets.  A target is the next beat that was not dealt with (`NextBeat`),
and that is all that is to be known of it.
-/
import ServerWarden.Proofs.Control.Timing
import ServerWarden.Proofs.Coordinator.Checks

namespace ServerWarden

/-! ## 1. Beats -/

/-- `m` is a whole number of intervals after `since`, and one at least. -/
def isBeat (every since m : Nat) : Bool := decide (since < m ∧ every ∣ m - since)

section Beats

variable {every since m n target : Nat}

theorem isBeat_iff :
    isBeat every since m = true ↔ 0 < every ∧ ∃ i, 1 ≤ i ∧ m = since + i * every := by
  rw [isBeat, decide_eq_true_eq]
  constructor
  · rintro ⟨hlt, i, hi⟩
    have hpos : 0 < every * i := by omega
    refine ⟨Nat.pos_of_mul_pos_right hpos, i, Nat.pos_of_mul_pos_left hpos, ?_⟩
    rw [Nat.mul_comm i]
    omega
  · rintro ⟨hpos, i, hi, rfl⟩
    have hless : 0 < i * every := Nat.mul_pos hi hpos
    rw [Nat.add_sub_cancel_left]
    exact ⟨by omega, Nat.dvd_mul_left every i⟩

theorem isBeat_zero : isBeat 0 since m = false := by
  rw [Bool.eq_false_iff, Ne, isBeat_iff]
  exact fun h => Nat.lt_irrefl 0 h.1

theorem isBeat_self : isBeat every since since = false :=
  decide_eq_false fun h => Nat.lt_irrefl _ h.1

/-- Beats are an interval apart. -/
theorem add_le_of_isBeat (hm : m = since ∨ isBeat every since m = true) (hlt : m < n)
    (hn : isBeat every since n = true) : m + every ≤ n := by
  obtain ⟨hsince, hn⟩ := of_decide_eq_true hn
  have hm' : since ≤ m ∧ every ∣ m - since := by
    rcases hm with rfl | hm
    · exact ⟨Nat.le_refl _, by simp⟩
    · obtain ⟨hsince, hm⟩ := of_decide_eq_true hm
      exact ⟨Nat.le_of_lt hsince, hm⟩
  have hgap : every ∣ n - m := by
    have hsub := Nat.dvd_sub hn hm'.2
    rwa [show n - since - (m - since) = n - m by omega] at hsub
  have hle : every ≤ n - m := Nat.le_of_dvd (by omega) hgap
  omega

/-- **`target` is the next beat**: at the moment or after it, with none between. -/
structure NextBeat (every since m target : Nat) : Prop where
  beat : isBeat every since target = true
  le : m ≤ target
  first : ∀ n, m < n → n < target → isBeat every since n = false

namespace NextBeat

/-- After a beat, or at the beginning, the next one is an interval away. -/
theorem of_add (hpos : 0 < every) (hm : m = since ∨ isBeat every since m = true) :
    NextBeat every since m (m + every) where
  beat := by
    rw [isBeat_iff]
    refine ⟨hpos, ?_⟩
    rcases hm with rfl | hm
    · exact ⟨1, Nat.le_refl 1, by rw [Nat.one_mul]⟩
    · obtain ⟨-, i, -, rfl⟩ := isBeat_iff.mp hm
      exact ⟨i + 1, by omega, by rw [Nat.add_mul, Nat.one_mul, Nat.add_assoc]⟩
  le := Nat.le_add_right m every
  first n hmn hn := by
    rw [Bool.eq_false_iff]
    intro hbeat
    have hle := add_le_of_isBeat hm hmn hbeat
    omega

theorem later (h : NextBeat every since m target) (hm : m ≤ n) (hn : n ≤ target) :
    NextBeat every since n target :=
  ⟨h.beat, hn, fun i hi => h.first i (Nat.lt_of_le_of_lt hm hi)⟩

theorem isBeat_eq (h : NextBeat every since m target) (hm : m < n) (hn : n ≤ target) :
    isBeat every since n = decide (target = n) := by
  by_cases he : target = n
  · rw [decide_eq_true he, ← he, h.beat]
  · rw [decide_eq_false he, h.first n hm (by omega)]

end NextBeat
end Beats

/-! ## 2. Stretches of one phase -/

/-- A stretch of time in one phase, from a millisecond on. -/
structure Epoch where
  since : Nat
  phase : TimerPhase
  deriving DecidableEq, Repr

/-- A call sets a phase at a millisecond.  A call that sets the present phase, or that comes after
the last phase, begins nothing new. -/
def Epoch.after (e : Epoch) (call : Nat × TimerPhase) : Epoch :=
  if e.phase = .stop ∨ e.phase = call.2 then e else ⟨call.1, call.2⟩

/-- The stretch after all of some calls, of a timer that starts at `start`. -/
def epoch (start : Nat) (calls : List (Nat × TimerPhase)) : Epoch :=
  calls.foldl Epoch.after ⟨start, .run⟩

/-- The stretch at a millisecond. -/
def epochAt (start : Nat) (calls : List (Nat × TimerPhase)) (m : Nat) : Epoch :=
  epoch start (calls.filter fun call => decide (call.1 ≤ m))

/-! ## 3. The law -/

/-- The milliseconds between two checks of a kind, none if there are no such checks. -/
def periodOf (health update : Nat) : Check → Nat
  | .health => health
  | .update => update

/-- The checks that are due at a millisecond, in a stretch that began at `since`. -/
def dueAt (health update since m : Nat) : Signals :=
  ⟨false, isBeat health since m, isBeat update since m⟩

/-- What is raised at a millisecond. -/
def raisedAt? (health update start : Nat) (calls : List (Nat × TimerPhase)) (m : Nat) :
    Option (Nat × Signals) :=
  let e := epochAt start calls m
  let due := dueAt health update e.since m
  if e.phase = .run ∧ due.any = true then some (m, due) else none

/-- **What a timer raises from its start up to a millisecond**, and when. -/
def cadence (health update start : Nat) (calls : List (Nat × TimerPhase)) (last : Nat) :
    List (Nat × Signals) :=
  (List.range' (start + 1) (last - start)).filterMap (raisedAt? health update start calls)

/-- **No change of phase falls on a beat** of the stretch that it ends. -/
def Clear (health update : Nat) : Epoch → List (Nat × TimerPhase) → Prop
  | _, [] => True
  | e, call :: calls =>
    (e.phase ≠ .stop → e.phase ≠ call.2 → (dueAt health update e.since call.1).any = false) ∧
      Clear health update (e.after call) calls

variable {health update start since m n last : Nat} {calls : List (Nat × TimerPhase)}
  {call : Nat × TimerPhase} {e : Epoch}

/-- The law, read at one moment of a stretch that began at `since`. -/
theorem mem_cadence {checks : Signals} : (m, checks) ∈ cadence health update start calls last ↔
    (start < m ∧ m ≤ last) ∧ checks.stop = false ∧ checks.any = true ∧
    ∃ since, epochAt start calls m = ⟨since, .run⟩ ∧
      (checks.healthCheck = true ↔ 0 < health ∧ ∃ i, 1 ≤ i ∧ m = since + i * health) ∧
      (checks.updateCheck = true ↔ 0 < update ∧ ∃ i, 1 ≤ i ∧ m = since + i * update) := by
  unfold cadence raisedAt?
  simp only [List.mem_filterMap, List.mem_range'_1, ← isBeat_iff]
  constructor
  · rintro ⟨i, hi, h⟩
    obtain ⟨⟨hrun, hany⟩, h⟩ := Option.ite_none_right_eq_some.mp h
    cases h
    exact ⟨by omega, rfl, hany, _, by rw [← hrun], Iff.rfl, Iff.rfl⟩
  · rintro ⟨hm, hstop, hany, since, he, hhealth, hupdate⟩
    have hchecks : checks = dueAt health update since m := by
      obtain ⟨stop, healthCheck, updateCheck⟩ := checks
      obtain rfl : stop = false := hstop
      obtain rfl : healthCheck = isBeat health since m := Bool.eq_iff_iff.mpr hhealth
      obtain rfl : updateCheck = isBeat update since m := Bool.eq_iff_iff.mpr hupdate
      rfl
    refine ⟨m, by omega, ?_⟩
    rw [he, ← hchecks]
    exact if_pos ⟨rfl, hany⟩

theorem has_dueAt (k : Check) :
    (dueAt health update since m).has k = isBeat (periodOf health update k) since m := by
  cases k <;> rfl

theorem dueAt_self : (dueAt health update since since).any = false := by
  simp [dueAt, Signals.any, isBeat_self]

/-- A check of a kind is one that is due. -/
theorem any_dueAt {k : Check} (h : isBeat (periodOf health update k) since m = true) :
    (dueAt health update since m).any = true := by
  cases k with
  | health => simp [dueAt, Signals.any, show isBeat health since m = true from h]
  | update => simp [dueAt, Signals.any, show isBeat update since m = true from h]

theorem epoch_append : epoch start (calls ++ [call]) = (epoch start calls).after call :=
  List.foldl_append

theorem epochAt_of_le (h : ∀ call ∈ calls, call.1 ≤ m) :
    epochAt start calls m = epoch start calls := by
  unfold epochAt
  rw [List.filter_eq_self.mpr]
  exact fun call hc => decide_eq_true (h call hc)

theorem epochAt_append_of_lt (h : m < call.1) :
    epochAt start (calls ++ [call]) m = epochAt start calls m := by
  unfold epochAt
  rw [List.filter_append, List.filter_singleton, decide_eq_false (Nat.not_le.mpr h)]
  simp

theorem clear_append {later : List (Nat × TimerPhase)} :
    Clear health update e (calls ++ later) ↔ Clear health update e calls ∧
      Clear health update (calls.foldl Epoch.after e) later := by
  induction calls generalizing e with
  | nil => simp [Clear]
  | cons c calls ih =>
    simp only [List.cons_append, Clear, ih, List.foldl_cons]
    exact and_assoc.symm

theorem cadence_start : cadence health update start calls start = [] := by
  simp [cadence]

theorem cadence_split (hstart : start ≤ m) (hle : m ≤ n) :
    cadence health update start calls n = cadence health update start calls m ++
      (List.range' (m + 1) (n - m)).filterMap (raisedAt? health update start calls) := by
  unfold cadence
  rw [← List.filterMap_append, show n - start = (m - start) + (n - m) by omega,
    ← List.range'_append, show start + 1 + 1 * (m - start) = m + 1 by omega]

/-- If nothing is raised between, there is only the end. -/
theorem cadence_later (hstart : start ≤ m) (hlt : m < n)
    (hnone : ∀ i, m < i → i < n → raisedAt? health update start calls i = none) :
    cadence health update start calls n = cadence health update start calls m ++
      (raisedAt? health update start calls n).toList := by
  have hbetween : (List.range' (m + 1) (n - m - 1)).filterMap
      (raisedAt? health update start calls) = [] := by
    rw [List.filterMap_eq_nil_iff]
    intro i hi
    rw [List.mem_range'_1] at hi
    exact hnone i (by omega) (by omega)
  rw [cadence_split hstart (Nat.le_of_lt hlt), show n - m = (n - m - 1) + 1 by omega,
    List.range'_1_concat, List.filterMap_append, hbetween, List.nil_append,
    show m + 1 + (n - m - 1) = n by omega]
  cases hr : raisedAt? health update start calls n <;> simp [hr]

/-- A call changes nothing of what was raised up to its own millisecond. -/
theorem cadence_append (hcalls : ∀ c ∈ calls, c.1 ≤ call.1)
    (hclear : (epoch start calls).phase ≠ .stop → (epoch start calls).phase ≠ call.2 →
      (dueAt health update (epoch start calls).since call.1).any = false) :
    cadence health update start (calls ++ [call]) call.1
      = cadence health update start calls call.1 := by
  unfold cadence
  refine List.filterMap_congr fun i hi => ?_
  rw [List.mem_range'_1] at hi
  unfold raisedAt?
  rcases Nat.lt_or_ge i call.1 with hlt | hge
  · rw [epochAt_append_of_lt hlt]
  · obtain rfl : i = call.1 := by omega
    have hcalls' : ∀ c ∈ calls ++ [call], c.1 ≤ call.1 := by
      intro c hc
      rcases List.mem_append.mp hc with hc | hc
      · exact hcalls c hc
      · exact Nat.le_of_eq (congrArg Prod.fst (List.mem_singleton.mp hc))
    rw [epochAt_of_le hcalls', epochAt_of_le hcalls, epoch_append, Epoch.after]
    split
    · rfl
    next hnew =>
      rw [not_or] at hnew
      simp [hclear hnew.1 hnew.2, dueAt_self]

end ServerWarden
