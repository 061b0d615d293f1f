/-
# Sums that a clock holds

An instant holds its seconds in 63 bits, and a configured span of time may have 64.  Two kinds of
span are added to the present moment as they stand in the configuration: the intervals of the timer,
when it sets its targets and when it moves them on, and the time for which a stop is held back.  A
task does not outlive a sum that no instant holds.

On clocks that read less than 2^62 seconds (`Instant.IsNear`) a span is never too long exactly if it
is 2^62 seconds at most (`Instant.add?_near`).  From there it is one argument for each task: a timer
adds its intervals to nothing later than now (`Crew.holds_iff`), and a stop adds its delay once
(`Keeper.stop_holds_iff`).  `Config.sums_hold_iff` says of every configuration when both are safe.

Nothing keeps a configuration below that bound, which is a fault: `longest_spans_overflow` has one
whose timer fails at once, and whose stop fails if players are to be warned.
-/
import ServerWarden.Control.Session
import ServerWarden.Proofs.Config.Normal
import ServerWarden.Proofs.Control.Requests
import ServerWarden.Proofs.Coordinator.Lateness

namespace ServerWarden

/-! ## 1. Spans that are never too long -/

/-- A clock that reads less than 2^62 seconds. -/
def Instant.IsNear (now : Instant) : Prop := now.nanos / 1000000000 < Nat.pow 2 62

/-- The longest span that may be added to such a reading. -/
def Duration.nearLimit : Duration := .ofSecs (Nat.pow 2 62)

variable {now : Instant} {d interval : Duration} {p : TimerPlan} {k : Check} {t : Targets}

theorem Instant.IsNear.mono {last : Instant} (h : now.IsNear) (hle : last ≤ now) : last.IsNear :=
  Nat.lt_of_le_of_lt (Nat.div_le_div_right hle) h

/-- **A span may be added to every near reading** exactly if it is not longer than the limit. -/
theorem Instant.add?_near :
    (∀ now : Instant, now.IsNear → now.add? d ≠ none) ↔ d ≤ .nearLimit := by
  have hnear : Nat.pow 2 62 = 4611686018427387904 := rfl
  have hlimit : secondsLimit = 9223372036854775808 := rfl
  simp only [add?_ne_none, IsNear, hnear, hlimit]
  show (∀ now : Instant, _ → (now.nanos + d.nanos) / 1000000000 < _) ↔
    d.nanos ≤ Nat.pow 2 62 * 1000000000
  rw [hnear]
  constructor
  · intro h
    -- the last reading that is near
    have hlast := h ⟨4611686018427387904 * 1000000000 - 1⟩ (by decide)
    dsimp only at hlast
    omega
  · intro h now hnow
    omega

theorem Duration.le_of_isZero (h : d.isZero = true) (limit : Duration) : d ≤ limit := by
  show d.nanos ≤ limit.nanos
  rw [show d.nanos = 0 from beq_iff_eq.mp h]
  exact Nat.zero_le _

/-! ## 2. The timer -/

theorem TimerPlan.arm?_ne_none
    (h : ∀ k interval, p.interval? k = some interval → now.add? interval ≠ none) :
    p.arm? now ≠ none := by
  obtain ⟨health, hhealth⟩ := Option.ne_none_iff_exists'.mp (h .health _ rfl)
  obtain ⟨p₁, p₂⟩ := p
  cases p₂ with
  | none => simp [arm?, hhealth]
  | some interval =>
    obtain ⟨update, hupdate⟩ := Option.ne_none_iff_exists'.mp (h .update _ rfl)
    simp [arm?, hhealth, hupdate]

theorem TimerPlace.start_ne_failed : start p now ≠ .failed ↔ p.arm? now ≠ none := by
  unfold start
  cases p.arm? now <;> simp

namespace Crew

variable {w : WaiterId} {s s' : Crew} {e : Event} {history : List (Instant × Event)}

/-- A step of a timer whose sums are held now does not make it fail. -/
theorem ne_failed_of_moves {c c' : Coordinator} {place place' : TimerPlace}
    (harm : p.arm? now ≠ none) (hm : place.Moves p w now c place' c') : place' ≠ .failed := by
  cases hm with
  | choose targets =>
    rcases TimerPlace.choose_cases targets c w with ⟨n, -, hc⟩ | ⟨-, hc⟩ <;> rw [hc] <;> nofun
  | notice targets =>
    cases hch : c.phaseChanged with
    | false =>
      rw [TimerPlace.notice_of_unchanged targets hch]
      nofun
    | true =>
      rw [TimerPlace.notice_of_changed targets hch]
      dsimp only
      split
      · nofun
      · exact TimerPlace.start_ne_failed.mpr harm
  | goOn targets =>
    unfold TimerPlace.goOn
    split <;> nofun
  | count targets =>
    obtain ⟨⟨checks, t'⟩, hfire⟩ := Option.ne_none_iff_exists'.mp (targets.fire?_of_arm? harm)
    simp only [TimerPlace.count, hfire]
    split <;> nofun
  | raise checks targets =>
    rcases TimerPlace.raise_cases checks targets c with ⟨c₁, -, hc⟩ | ⟨-, hc⟩ <;> rw [hc] <;> nofun
  | overdue | resume | expire | ring => nofun

theorem Steps.ne_failed {start : Instant} (harm : ∀ now : Instant, now.IsNear → p.arm? now ≠ none)
    (h : Steps p w (initial p start) history s) (hnear : s.now.IsNear) : s.timer ≠ .failed := by
  induction h with
  | refl => exact TimerPlace.start_ne_failed.mpr (harm _ hnear)
  | step _ hstep ih =>
    have hbefore := hnear.mono hstep.now_le
    have hkept := ih hbefore
    cases hstep with
    | time hm => exact ne_failed_of_moves (harm _ hbefore) hm
    | _ => exact hkept

/-- **A timer never fails**, whatever the other tasks do and however late it is, exactly if none of
its intervals is longer than the limit. -/
theorem holds_iff : (∀ w start history s, Steps p w (initial p start) history s → s.now.IsNear →
      s.timer ≠ .failed) ↔
    ∀ k interval, p.interval? k = some interval → interval ≤ .nearLimit := by
  constructor
  · intro h k interval hk
    rw [← Instant.add?_near]
    intro now hnear
    have hstart := TimerPlace.start_ne_failed.mp (h 0 now [] _ .refl hnear)
    obtain ⟨t, harm⟩ := Option.ne_none_iff_exists'.mp hstart
    exact TimerPlan.add?_of_arm? harm hk
  · intro h w start history s hsteps hnear
    refine hsteps.ne_failed (fun now hnow => TimerPlan.arm?_ne_none fun k interval hk => ?_) hnear
    exact Instant.add?_near.mpr (h k interval hk) now hnow

end Crew

/-! ## 3. The stop -/

/-- A request that does not end the program: a moment that is asked for is one that a clock holds.
-/
def Request.Holds : ⦃β : Type⦄ → Request β → Prop
  | _, .deadline d => ∀ now : Instant, now.IsNear → now.add? d ≠ none
  | _, _ => True

theorem Request.Lowers.holds {β : Type} {r : Request β} (h : r.Lowers) : r.Holds := by
  cases r <;> first | exact absurd h id | trivial

namespace Keeper

open Program

theorem holdBack_holds (k : Keeper) (h : k.shutdownDelay ≤ .nearLimit) (held : Option Handle)
    (reason : String) : (k.holdBack held reason).Asks Request.Holds := by
  unfold holdBack
  split
  · exact asks_pure _
  refine asks_request_bind.2 ⟨trivial, fun connected => ?_⟩
  split
  · exact asks_request.2 trivial
  · refine asks_info.2 ⟨trivial, fun _ => ?_⟩
    refine asks_request_bind.2 ⟨Instant.add?_near.mpr h, fun deadline => asks_loop fun _ => ?_⟩
    exact holdBackRound_asks trivial (fun _ => trivial) (fun _ _ _ => trivial) (fun _ => trivial)
      (fun _ _ _ => trivial) held reason deadline

/-- **A stop never asks for a moment that no clock holds** exactly if the time for which it is held
back is not longer than the limit. -/
theorem stop_holds_iff (k : Keeper) :
    (∀ held reason, (k.stop held reason).Asks Request.Holds) ↔ k.shutdownDelay ≤ .nearLimit := by
  constructor
  · intro h
    -- the server runs, and the console is connected
    have hstop : (k.holdBack (some ⟨0⟩) "").Asks Request.Holds :=
      Asks.of_bind (((h (some ⟨0⟩) "").2 true).2 ())
    unfold holdBack at hstop
    split at hstop
    next hzero => exact Duration.le_of_isZero hzero _
    next =>
      have hdeadline := ((hstop.2 true).2 ()).1
      exact Instant.add?_near.mp hdeadline
  · exact fun h => k.stop_asks (fun _ => Request.Lowers.holds) (k.holdBack_holds h)

end Keeper

/-! ## 4. Configurations -/

/-- What the timer of a session is told. -/
def SupervisorSettings.timerPlan (s : SupervisorSettings) : TimerPlan :=
  .of s.healthInterval s.updateInterval

/-- A timer of the configuration never fails, and a stop never asks for a moment that no clock
holds. -/
structure Config.SumsHold (c : Config) : Prop where
  timer : ∀ w start history s,
    Crew.Steps (SupervisorSettings.ofConfig c).timerPlan w
      (Crew.initial (SupervisorSettings.ofConfig c).timerPlan start) history s →
    s.now.IsNear → s.timer ≠ .failed
  stop : ∀ k : Keeper, k.shutdownDelay = c.server.shutdownDelay → ∀ held reason,
    (k.stop held reason).Asks Request.Holds

/-- The time between health checks is short; that between update checks is as configured. -/
theorem Config.timer_holds_iff (c : Config) :
    (∀ k interval, (SupervisorSettings.ofConfig c).timerPlan.interval? k = some interval →
      interval ≤ .nearLimit) ↔ c.update.interval ≤ .nearLimit := by
  have hupdate : (SupervisorSettings.ofConfig c).timerPlan.interval? .update
      = if c.update.interval.isZero then none else some c.update.interval := rfl
  constructor
  · intro h
    by_cases hzero : c.update.interval.isZero = true
    · exact Duration.le_of_isZero hzero _
    · rw [if_neg hzero] at hupdate
      exact h .update _ hupdate
  · intro h k interval hk
    cases k with
    | health =>
      obtain rfl := Option.some.inj hk
      show (60 * 1000000000 : Nat) ≤ Nat.pow 2 62 * 1000000000
      decide
    | update =>
      rw [hupdate] at hk
      split at hk
      · exact nomatch hk
      · obtain rfl := Option.some.inj hk
        exact h

/-- **Every sum of a configuration is held** exactly if the time between its update checks and the
time for which it holds a stop back are 2^62 seconds at most.  The time between health checks always
is. -/
theorem Config.sums_hold_iff (c : Config) : c.SumsHold ↔
    c.update.interval ≤ .nearLimit ∧ c.server.shutdownDelay ≤ .nearLimit := by
  rw [← c.timer_holds_iff, ← Crew.holds_iff]
  constructor
  · intro h
    have hstop := h.stop ⟨default, c.server.shutdownDelay, Keeper.defaultStartPoll,
      Keeper.defaultStopPoll⟩ rfl
    exact ⟨h.timer, (Keeper.stop_holds_iff _).mp hstop⟩
  · rintro ⟨htimer, hstop⟩
    refine ⟨htimer, fun k hk => ?_⟩
    rw [← hk] at hstop
    exact k.stop_holds_iff.mpr hstop

/-- A file with the longest spans that can be written. -/
def longestSpans : String :=
  "[install]\npath=\"/\"\nidentity=\"m\"\n[rcon]\npassword=\"s\"\n[seed]\nfixed=7\n" ++
    "[process]\nshutdown_delay=\"18446744073709551615s\"\n" ++
    "[update]\ninterval=\"18446744073709551615s\"\nserver.on_interval=true\n"

/-- It is accepted, its timer fails at once, and no clock holds the moment until which its stop is
held back. -/
theorem longest_spans_overflow : ∃ c,
    (Config.ofText ⟨⟨[], []⟩, none, "/tmp"⟩ longestSpans).value = .ok c ∧
    (Crew.initial (SupervisorSettings.ofConfig c).timerPlan .start).timer = .failed ∧
    Instant.start.add? c.server.shutdownDelay = none := by
  obtain ⟨c, hc, hspans⟩ : ∃ c,
      (Config.ofText ⟨⟨[], []⟩, none, "/tmp"⟩ longestSpans).value = .ok c ∧
      (c.update.interval, c.server.shutdownDelay)
        = (.ofSecs 18446744073709551615, .ofSecs 18446744073709551615) :=
    Config.exists_ok (by decide +kernel)
  obtain ⟨hinterval, hdelay⟩ := Prod.mk.inj hspans
  refine ⟨c, hc, ?_, ?_⟩
  · show TimerPlace.start (.of (.ofSecs 60) c.update.interval) .start = .failed
    rw [hinterval]
    rfl
  · rw [hdelay]
    rfl

end ServerWarden
