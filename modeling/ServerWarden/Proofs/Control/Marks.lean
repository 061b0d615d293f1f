/-
# The marks of a shutdown

A shutdown is announced at marks: every five minutes as long as more than five minutes are left,
then every minute, in the last minute every ten seconds, and in the last ten seconds every second.
`Announcement.untilNext` is the wait from any time that is left to the next mark.

* The wait never exceeds the time that is left, and it is positive if a whole millisecond is left.
* A time in whole milliseconds comes down to the greatest mark below it, or to nothing
  (`untilNext_of_sharp`).
* **Other times may jump over marks.**  How far apart the marks are is read from the exact time,
  and how far the next one is from its whole milliseconds.  The two disagree when the time exceeds
  300, 60 or 10 seconds by less than a millisecond (`Blurred`): the wait is then a whole interval of
  the coarser kind, and it jumps over every mark of the finer one.  There is no other such time
  (`wait_keeps_marks_iff`).
-/
import ServerWarden.Announcement
import ServerWarden.Proofs.Control.Timing

namespace ServerWarden.Announcement

/-! ## 1. Marks -/

/-- A number of seconds at which a shutdown is announced: a multiple of 300 from 300 up, of 60 from
60 to 300, of 10 from 10 to 60, and of 1 from 1 to 10. -/
def IsMark (n : Nat) : Prop :=
  (300 ≤ n ∧ 300 ∣ n) ∨ (60 ≤ n ∧ n ≤ 300 ∧ 60 ∣ n) ∨ (10 ≤ n ∧ n ≤ 60 ∧ 10 ∣ n) ∨
    (1 ≤ n ∧ n ≤ 10)

instance : DecidablePred IsMark := fun n =>
  inferInstanceAs (Decidable ((300 ≤ n ∧ 300 ∣ n) ∨ (60 ≤ n ∧ n ≤ 300 ∧ 60 ∣ n) ∨
    (10 ≤ n ∧ n ≤ 60 ∧ 10 ∣ n) ∨ (1 ≤ n ∧ n ≤ 10)))

/-- The marks below a number of seconds, the greatest first. -/
def marksBelow (n : Nat) : List Nat := ((List.range n).filter (IsMark ·)).reverse

/-- What is announced from a number of seconds on: it, and the marks below it. -/
def countdown (n : Nat) : List Nat := if n = 0 then [] else n :: marksBelow n

/-- `next` is the greatest mark below a number of seconds, or zero if there is none. -/
structure MarkBefore (n next : Nat) : Prop where
  lt : next < n
  isMark : next = 0 ∨ IsMark next
  greatest : ∀ m, IsMark m → m < n → m ≤ next

theorem pos_of_isMark {n : Nat} (h : IsMark n) : 0 < n := by
  unfold IsMark at h
  omega

theorem marksBelow_succ (n : Nat) :
    marksBelow (n + 1) = (if IsMark n then [n] else []) ++ marksBelow n := by
  rw [marksBelow, List.range_succ, List.filter_append, List.reverse_append]
  congr 1
  by_cases h : IsMark n <;> simp [h]

/-- The list of marks goes on with the greatest one. -/
theorem MarkBefore.marksBelow_eq {n next : Nat} (h : MarkBefore n next) :
    marksBelow n = countdown next := by
  have between : ∀ k, next + 1 + k ≤ n → marksBelow (next + 1 + k) = countdown next := by
    intro k
    induction k with
    | zero =>
      intro _
      rw [Nat.add_zero, marksBelow_succ]
      rcases h.isMark with rfl | hm
      · rfl
      · rw [if_pos hm, countdown, if_neg (Nat.ne_of_gt (pos_of_isMark hm))]
        rfl
    | succ k ih =>
      intro hk
      have hno : ¬ IsMark (next + 1 + k) := fun hm => by
        have hle := h.greatest _ hm (by omega)
        omega
      rw [← Nat.add_assoc, marksBelow_succ, if_neg hno, List.nil_append]
      exact ih (by omega)
  have hn := between (n - (next + 1)) (by have := h.lt; omega)
  rwa [Nat.add_sub_of_le h.lt] at hn

theorem MarkBefore.countdown_eq {n next : Nat} (h : MarkBefore n next) :
    countdown n = n :: countdown next := by
  rw [countdown, if_neg (Nat.ne_of_gt (Nat.zero_lt_of_lt h.lt)), h.marksBelow_eq]

/-! ## 2. The wait for the next mark -/

/-- A time that exceeds a change of the interval by less than a millisecond. -/
def Blurred (r : Duration) : Prop :=
  ∃ bound ∈ [10, 60, 300], Duration.ofSecs bound < r ∧ r.millis = 1000 * bound

theorem interval_pos (r : Duration) : 0 < (interval r).millis := by
  unfold interval
  split
  · decide
  · split
    · decide
    · split <;> decide

theorem step_or_rest {n step : Nat} (hpos : 0 < step) :
    min (if (n + 1) % step = 0 then step else (n + 1) % step) (n + 1) = n % step + 1 := by
  have hlt : n % step < step := Nat.mod_lt n hpos
  have hle : n % step ≤ n := Nat.mod_le n step
  have hsum : n + 1 = step * (n / step) + (n % step + 1) := by
    have hdiv := Nat.div_add_mod n step
    omega
  have hmod : (n + 1) % step = (n % step + 1) % step := by
    conv_lhs => rw [hsum, Nat.mul_add_mod]
  rw [hmod]
  by_cases hlast : n % step + 1 = step
  · rw [hlast, Nat.mod_self, if_pos rfl]
    omega
  · rw [Nat.mod_eq_of_lt (by omega), if_neg (Nat.succ_ne_zero _)]
    omega

/-- The wait from the millisecond after `n`: what `n` is beyond a multiple of the interval, and that
millisecond. -/
theorem untilNext_eq {r : Duration} {n : Nat} (h : r.millis = n + 1) :
    untilNext r = .ofMillis (n % (interval r).millis + 1) := by
  have hrest := step_or_rest (n := n) (interval_pos r)
  rw [← h] at hrest
  exact congrArg Duration.ofMillis hrest

theorem untilNext_of_millis_eq_zero {r : Duration} (h : r.millis = 0) : untilNext r = .zero := by
  simp only [untilNext, h, Nat.min_zero]
  rfl

/-- A wait for the next announcement takes some of the time that is left, and no more. -/
theorem untilNext_bounds {ms : Nat} (h : 0 < ms) :
    ∃ wait, untilNext (.ofMillis ms) = .ofMillis wait ∧ 0 < wait ∧ wait ≤ ms := by
  have hms : (Duration.ofMillis ms).millis = ms - 1 + 1 := by
    rw [Duration.millis_ofMillis]
    omega
  refine ⟨_, untilNext_eq hms, Nat.succ_pos _, ?_⟩
  have hle := Nat.mod_le (ms - 1) (interval (.ofMillis ms)).millis
  omega

theorem not_blurred_ofMillis (ms : Nat) : ¬ Blurred (.ofMillis ms) := by
  rintro ⟨bound, -, hlt, heq⟩
  have hnanos : bound * 1000000000 < ms * 1000000 := hlt
  rw [Duration.millis_ofMillis] at heq
  omega

/-- The interval of a time that is not blurred goes by its whole milliseconds. -/
theorem interval_cases {r : Duration} (h : ¬ Blurred r) :
    (300000 < r.millis ∧ (interval r).millis = 300000) ∨
    (60000 < r.millis ∧ r.millis ≤ 300000 ∧ (interval r).millis = 60000) ∨
    (10000 < r.millis ∧ r.millis ≤ 60000 ∧ (interval r).millis = 10000) ∨
    (r.millis ≤ 10000 ∧ (interval r).millis = 1000) := by
  have above {bound : Nat} (hb : bound ∈ [10, 60, 300]) (hlt : Duration.ofSecs bound < r) :
      1000 * bound < r.millis := by
    have hnanos : bound * 1000000000 < r.nanos := hlt
    have hne : r.millis ≠ 1000 * bound := fun heq => h ⟨bound, hb, hlt, heq⟩
    have hdiv : r.millis = r.nanos / 1000000 := rfl
    omega
  have below {bound : Nat} (hle : ¬ Duration.ofSecs bound < r) : r.millis ≤ 1000 * bound := by
    have hnanos : ¬ bound * 1000000000 < r.nanos := hle
    have hdiv : r.millis = r.nanos / 1000000 := rfl
    omega
  unfold interval
  split
  · next h300 => exact Or.inl ⟨above (by decide) h300, by decide⟩
  · next h300 =>
    split
    · next h60 => exact Or.inr (Or.inl ⟨above (by decide) h60, below h300, by decide⟩)
    · next h60 =>
      split
      · next h10 =>
        exact Or.inr (Or.inr (Or.inl ⟨above (by decide) h10, below h60, by decide⟩))
      · next h10 => exact Or.inr (Or.inr (Or.inr ⟨below h10, by decide⟩))

/-- **A time that is not blurred comes down to the greatest mark below it**, or to nothing. -/
theorem untilNext_of_sharp {r : Duration} (hr : 0 < r.millis) (h : ¬ Blurred r) :
    ∃ next, untilNext r = .ofMillis (r.millis - 1000 * next) ∧ 1000 * next < r.millis ∧
      (next = 0 ∨ IsMark next) ∧ ∀ m, IsMark m → 1000 * m < r.millis → m ≤ next := by
  obtain ⟨n, hn⟩ : ∃ n, r.millis = n + 1 := ⟨r.millis - 1, by omega⟩
  -- the number of milliseconds that is left is a multiple of the interval below `r`
  refine ⟨(n - n % (interval r).millis) / 1000, ?_, ?_, ?_, fun m hm hlt => ?_⟩
  · rw [untilNext_eq hn]
    congr 1
    rcases interval_cases h with ⟨h1, hi⟩ | ⟨h1, h2, hi⟩ | ⟨h1, h2, hi⟩ | ⟨h1, hi⟩ <;>
      rw [hi] <;> omega
  · omega
  · rcases interval_cases h with ⟨h1, hi⟩ | ⟨h1, h2, hi⟩ | ⟨h1, h2, hi⟩ | ⟨h1, hi⟩ <;>
      (rw [hi, IsMark]; omega)
  · rcases interval_cases h with ⟨h1, hi⟩ | ⟨h1, h2, hi⟩ | ⟨h1, h2, hi⟩ | ⟨h1, hi⟩ <;>
      (rw [hi]; rw [IsMark] at hm; omega)

/-- Less than a second before `n` seconds are left, the wait is for the greatest mark below `n`. -/
theorem untilNext_of_close {n late : Nat} (hn : 0 < n) (hlate : late < 1000) :
    ∃ next, MarkBefore n next ∧
      untilNext (.ofMillis (1000 * n - late)) = .ofMillis (1000 * n - late - 1000 * next) := by
  have hms : (Duration.ofMillis (1000 * n - late)).millis = 1000 * n - late :=
    Duration.millis_ofMillis _
  obtain ⟨next, hwait, hlt, hmark, hmost⟩ :=
    untilNext_of_sharp (by rw [hms]; omega) (not_blurred_ofMillis (1000 * n - late))
  rw [hms] at hwait hlt hmost
  refine ⟨next, ⟨by omega, hmark, fun m hm hmn => hmost m hm (by omega)⟩, hwait⟩

/-! ## 3. When a wait jumps over a mark -/

theorem untilNext_le (r : Duration) : untilNext r ≤ r := by
  have hdiv : r.millis = r.nanos / 1000000 := rfl
  rcases Nat.eq_zero_or_pos r.millis with hzero | hpos
  · rw [untilNext_of_millis_eq_zero hzero]
    exact Nat.zero_le r.nanos
  · obtain ⟨n, hn⟩ : ∃ n, r.millis = n + 1 := ⟨r.millis - 1, by omega⟩
    have hle := Nat.mod_le n (interval r).millis
    rw [untilNext_eq hn]
    show (n % (interval r).millis + 1) * 1000000 ≤ r.nanos
    omega

theorem untilNext_pos_iff {r : Duration} : .zero < untilNext r ↔ .ofMillis 1 ≤ r := by
  have hdiv : r.millis = r.nanos / 1000000 := rfl
  have hone : Duration.ofMillis 1 ≤ r ↔ 1000000 ≤ r.nanos := Iff.rfl
  rw [hone]
  rcases Nat.eq_zero_or_pos r.millis with hzero | hpos
  · rw [untilNext_of_millis_eq_zero hzero]
    constructor
    · intro h
      exact absurd h (Nat.lt_irrefl 0)
    · intro h
      omega
  · obtain ⟨n, hn⟩ : ∃ n, r.millis = n + 1 := ⟨r.millis - 1, by omega⟩
    rw [untilNext_eq hn]
    constructor
    · intro _
      omega
    · intro _
      show 0 < (n % (interval r).millis + 1) * 1000000
      omega

/-- Just above a change of the interval the wait is for the whole of what is left. -/
theorem untilNext_of_blurred {r : Duration} {bound : Nat} (hb : bound ∈ [10, 60, 300])
    (hlt : Duration.ofSecs bound < r) (heq : r.millis = 1000 * bound) :
    untilNext r = .ofSecs bound := by
  have hnanos : bound * 1000000000 < r.nanos := hlt
  have hdiv : r.millis = r.nanos / 1000000 := rfl
  have above {n : Nat} (hn : n ≤ bound) : Duration.ofSecs n < r :=
    Nat.lt_of_le_of_lt (Nat.mul_le_mul_right 1000000000 hn) hnanos
  have below {n : Nat} (hn : bound < n) : ¬ Duration.ofSecs n < r := by
    show ¬ n * 1000000000 < r.nanos
    omega
  have hinterval : interval r = .ofSecs bound := by
    unfold interval
    simp only [List.mem_cons, List.not_mem_nil, or_false] at hb
    rcases hb with rfl | rfl | rfl
    · rw [if_neg (below (by decide)), if_neg (below (by decide)), if_pos (above (by decide))]
    · rw [if_neg (below (by decide)), if_pos (above (by decide))]
    · rw [if_pos (above (by decide))]
  have hstep : (interval r).millis = r.millis := by
    rw [hinterval, heq, Duration.ofSecs_eq_ofMillis, Duration.millis_ofMillis]
  have hpos := interval_pos r
  obtain ⟨n, hn⟩ : ∃ n, r.millis = n + 1 := ⟨r.millis - 1, by omega⟩
  rw [untilNext_eq hn, hstep, hn, Nat.mod_eq_of_lt (Nat.lt_succ_self n), ← hn, heq,
    Duration.ofSecs_eq_ofMillis]

/-- **Which waits keep the marks.**  A wait never exceeds the time that is left, and it is positive
if and only if a whole millisecond is left.  It leaves no less than each mark below the whole
milliseconds of that time, unless the time exceeds 300, 60 or 10 seconds by less than a
millisecond; and then it does jump over a mark. -/
theorem wait_keeps_marks_iff (r : Duration) :
    untilNext r ≤ r ∧ (.zero < untilNext r ↔ .ofMillis 1 ≤ r) ∧
    ((∀ m, IsMark m → Duration.ofSecs m < .ofMillis r.millis →
      Duration.ofSecs m + untilNext r ≤ r) ↔ ¬ Blurred r) := by
  refine ⟨untilNext_le r, untilNext_pos_iff, fun h hblur => ?_, fun h m hm hlt => ?_⟩
  · obtain ⟨bound, hb, hlt, heq⟩ := hblur
    -- the next mark below each change of the interval
    obtain ⟨m, hm, hpos, hnext⟩ : ∃ m, IsMark m ∧ 0 < m ∧ m < bound := by
      simp only [List.mem_cons, List.not_mem_nil, or_false] at hb
      rcases hb with rfl | rfl | rfl
      · exact ⟨9, by decide⟩
      · exact ⟨50, by decide⟩
      · exact ⟨240, by decide⟩
    have hkeep : m * 1000000000 + (untilNext r).nanos ≤ r.nanos := by
      refine h m hm ?_
      show m * 1000000000 < r.millis * 1000000
      omega
    have hall : (untilNext r).nanos = bound * 1000000000 :=
      congrArg Duration.nanos (untilNext_of_blurred hb hlt heq)
    have hdiv : r.millis = r.nanos / 1000000 := rfl
    omega
  · have hnanos : m * 1000000000 < r.millis * 1000000 := hlt
    have hdiv : r.millis = r.nanos / 1000000 := rfl
    obtain ⟨next, hwait, -, -, hmost⟩ := untilNext_of_sharp (by omega) h
    have hle := hmost m hm (by omega)
    rw [hwait]
    show m * 1000000000 + (r.millis - 1000 * next) * 1000000 ≤ r.nanos
    omega

/-- **A wait that jumps over marks.**  With ten seconds and a nanosecond left, the wait is ten
seconds, and none of the last nine seconds is announced; with a nanosecond left there is no wait. -/
theorem marks_jumped_over :
    (.zero < (⟨10000000001⟩ : Duration) ∧ IsMark 9 ∧
      Duration.ofSecs 9 < .ofMillis (⟨10000000001⟩ : Duration).millis ∧
      ¬ Duration.ofSecs 9 + untilNext ⟨10000000001⟩ ≤ ⟨10000000001⟩) ∧
    .zero < (⟨1⟩ : Duration) ∧ ¬ .zero < untilNext ⟨1⟩ := by
  decide +kernel

end ServerWarden.Announcement
