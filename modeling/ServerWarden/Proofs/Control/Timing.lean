/-
# The time that a control program takes

Surroundings with a clock of whole milliseconds, and the time that each answer takes in them: a
sleep takes the milliseconds that it is for, rounded up; a command takes as long as its answer, and
its timeout at most; the gateway, the timer and the next signals take any time; everything else
takes none.

The clock may run for ever, or end after some millisecond, as that of an `Instant` does.

`Program.Within` is a bound along the program text, for programs without a repetition: the sum of
what their requests may take at most, whatever they are answered (`Request.span?`).
-/
import ServerWarden.Proofs.Control.Escalation
import ServerWarden.Rcon.Client

namespace ServerWarden

open Surroundings

/-! ## 1. Whole milliseconds -/

namespace Duration

/-- The whole milliseconds that a sleep takes. -/
def ceilMillis (d : Duration) : Nat := (d.nanos + 999999) / 1000000

theorem ceilMillis_ofMillis (ms : Nat) : (ofMillis ms).ceilMillis = ms := by
  show (ms * 1000000 + 999999) / 1000000 = ms
  omega

theorem millis_ofMillis (ms : Nat) : (ofMillis ms).millis = ms :=
  Nat.mul_div_cancel ms (by decide)

theorem ofSecs_eq_ofMillis (s : Nat) : ofSecs s = ofMillis (1000 * s) := by
  simp only [ofSecs, ofMillis, Duration.mk.injEq]
  omega

theorem isZero_ofMillis (ms : Nat) : (ofMillis ms).isZero = true ↔ ms = 0 := by
  show (ms * 1000000 == 0) = true ↔ ms = 0
  rw [beq_iff_eq]
  omega

end Duration

namespace Instant

theorem ofMillis_le {a b : Nat} : ofMillis a ≤ ofMillis b ↔ a ≤ b := by
  show a * 1000000 ≤ b * 1000000 ↔ a ≤ b
  omega

theorem ofMillis_lt {a b : Nat} : ofMillis a < ofMillis b ↔ a < b := by
  show a * 1000000 < b * 1000000 ↔ a < b
  omega

theorem ofMillis_add (now ms : Nat) : (ofMillis now).add (.ofMillis ms) = ofMillis (now + ms) := by
  simp [add, ofMillis, Duration.ofMillis, Nat.add_mul]

theorem since_ofMillis (a b : Nat) : (ofMillis a).since (ofMillis b) = .ofMillis (a - b) := by
  simp [since, ofMillis, Duration.ofMillis, Nat.sub_mul]

/-- A sleep from a whole millisecond takes whole milliseconds. -/
theorem wake_add (now : Nat) (d : Duration) :
    ((ofMillis now).add d).wake = ofMillis (now + d.ceilMillis) := by
  simp only [wake, add, ofMillis, Duration.ceilMillis, Instant.mk.injEq]
  omega

/-- `Holds last ms`: a clock that ends after `last`, if it ends at all, shows the millisecond `ms`
at some time. -/
def Holds (last : Option Nat) (ms : Nat) : Prop := ∀ l ∈ last, ms ≤ l

theorem holds_none (ms : Nat) : Holds none ms := nofun

theorem holds_some {l ms : Nat} : Holds (some l) ms ↔ ms ≤ l := by simp [Holds]

theorem Holds.mono {last : Option Nat} {m n : Nat} (h : Holds last n) (hle : m ≤ n) :
    Holds last m := fun l hl => Nat.le_trans hle (h l hl)

/-- The last millisecond that an instant can hold. -/
def lastMillis : Nat := secondsLimit * 1000 - 1

/-- The clock of an instant is one that ends. -/
theorem add?_ofMillis {now ms : Nat} :
    (ofMillis now).add? (.ofMillis ms) ≠ none ↔ Holds (some lastMillis) (now + ms) := by
  have hfits (limit : Nat) (hpos : 0 < limit) :
      (ofMillis (now + ms)).nanos / 1000000000 < limit ↔ now + ms ≤ limit * 1000 - 1 := by
    simp only [ofMillis]
    omega
  refine add?_ne_none.trans ?_
  rw [ofMillis_add]
  exact (hfits secondsLimit (by decide +kernel)).trans holds_some.symm

end Instant

/-! ## 2. The time that answers take -/

/-- How a command ends that is sent at a moment, and when. -/
inductive Replied (now : Nat) (timeout : Duration) : String → Nat → Prop where
  /-- There is no connection, or nothing is waited for, or the frame could not be queued. -/
  | unsent : Replied now timeout Rcon.Sending.noAnswer now
  /-- It waits until it is found over, which is looked for at its deadline at the latest. -/
  | awaited (client : Rcon.Client Unit) (ticket : Rcon.Ticket) {timedOut : Bool} {answer : String}
      {now' : Nat} : timeout.isZero = false → now ≤ now' →
      Instant.ofMillis now' ≤ ((Instant.ofMillis now).add timeout).wake →
      Rcon.Sending.await client (.ofMillis now') ticket ((Instant.ofMillis now).add timeout)
        = (.leaving ticket answer, timedOut) → Replied now timeout answer now'

/-- A console that answers before the deadline. -/
theorem Replied.in_time {now now' : Nat} {timeout : Duration} (answer : String)
    (ht : timeout.isZero = false) (hle : now ≤ now') (hspan : now' ≤ now + timeout.ceilMillis) :
    Replied now timeout answer now' := by
  refine .awaited ⟨⟨"", 0, "", false, 0⟩, [], [], 0, 0, [(0, answer)]⟩ ⟨0, 0, 0⟩ ht hle ?_ rfl
  rw [Instant.wake_add]
  exact Instant.ofMillis_le.mpr hspan

/-- A console that has an answer ready. -/
theorem Replied.at_once {now : Nat} {timeout : Duration} (answer : String)
    (ht : timeout.isZero = false) : Replied now timeout answer now :=
  .in_time answer ht (Nat.le_refl _) (Nat.le_add_right _ _)

/-- What a command that waits has in the end. -/
def Rcon.Receipt.final : Rcon.Receipt → String
  | .answer text => text
  | _ => Rcon.Sending.noAnswer

/-- Whatever has come for it, a command is found over at its deadline. -/
theorem Replied.at_deadline {now : Nat} {timeout : Duration} (client : Rcon.Client Unit)
    (ticket : Rcon.Ticket) (ht : timeout.isZero = false) :
    Replied now timeout (client.receive ticket).final (now + timeout.ceilMillis) := by
  have hwake := Instant.wake_add now timeout
  have hover : ((Instant.ofMillis now).add timeout).wake
      ≤ Instant.ofMillis (now + timeout.ceilMillis) := by
    rw [hwake]
    exact Instant.ofMillis_le.mpr (Nat.le_refl _)
  obtain ⟨timedOut, hend⟩ : ∃ timedOut, Rcon.Sending.await client
      (.ofMillis (now + timeout.ceilMillis)) ticket ((Instant.ofMillis now).add timeout)
      = (.leaving ticket (client.receive ticket).final, timedOut) := by
    unfold Rcon.Sending.await
    cases client.receive ticket with
    | answer text => exact ⟨false, rfl⟩
    | lost => exact ⟨false, rfl⟩
    | waiting => exact ⟨true, if_pos hover⟩
  refine .awaited client ticket ht (Nat.le_add_right _ _) ?_ hend
  rw [hwake]
  exact Instant.ofMillis_le.mpr (Nat.le_refl _)

namespace Request

/-- `r.Passes last now b now'`: a request that is made at `now` is answered by `b` at `now'`, on a
clock that ends after `last`, if it ends.  A sleep ends when it is over; one whose end the clock
does not hold may end sooner. -/
def Passes (last : Option Nat) : ⦃β : Type⦄ → Request β → Nat → β → Nat → Prop
  | _, .clock, now, i, now' => i = .ofMillis now ∧ now' = now
  | _, .deadline d, now, i, now' => i = (Instant.ofMillis now).add d ∧
      Instant.Holds last (now + d.ceilMillis) ∧ now' = now
  | _, .sleep d, now, _, now' => now ≤ now' ∧ now' ≤ now + d.ceilMillis ∧
      (Instant.Holds last (now + d.ceilMillis) → now' = now + d.ceilMillis)
  | _, .command _ timeout, now, answer, now' => Replied now timeout answer now'
  | _, .checkServer, now, _, now' => now ≤ now'
  | _, .checkFramework, now, _, now' => now ≤ now'
  | _, .updateServer, now, _, now' => now ≤ now'
  | _, .updateFramework _, now, _, now' => now ≤ now'
  | _, .waitForSignals, now, _, now' => now ≤ now'
  | _, .joinTimer, now, _, now' => now ≤ now'
  | _, _, now, _, now' => now' = now

/-- The longest time until an answer comes, if there is one.  There is none for a moment that a
clock may not hold. -/
def span? : ⦃β : Type⦄ → Request β → Option Nat
  | _, .deadline _ => none
  | _, .checkServer => none
  | _, .checkFramework => none
  | _, .updateServer => none
  | _, .updateFramework _ => none
  | _, .waitForSignals => none
  | _, .joinTimer => none
  | _, .sleep d => some d.ceilMillis
  | _, .command _ timeout => some timeout.ceilMillis
  | _, _ => some 0

theorem Passes.bounds {last : Option Nat} {β : Type} {r : Request β} {now now' : Nat} {b : β}
    {span : Nat} (h : r.Passes last now b now') (hr : r.span? = some span) :
    now ≤ now' ∧ now' ≤ now + span := by
  cases r with
  | deadline | checkServer | checkFramework | updateServer | updateFramework | waitForSignals
  | joinTimer => exact nomatch hr
  | clock =>
    obtain ⟨-, rfl⟩ := h
    exact ⟨Nat.le_refl _, Nat.le_add_right _ _⟩
  | sleep d =>
    obtain rfl : d.ceilMillis = span := Option.some.inj hr
    exact ⟨h.1, h.2.1⟩
  | command text timeout =>
    obtain rfl : timeout.ceilMillis = span := Option.some.inj hr
    cases h with
    | unsent => exact ⟨Nat.le_refl _, Nat.le_add_right _ _⟩
    | awaited _ _ _ hle hwake _ =>
      rw [Instant.wake_add, Instant.ofMillis_le] at hwake
      exact ⟨hle, hwake⟩
  | _ =>
    obtain rfl : now' = now := h
    exact ⟨Nat.le_refl _, Nat.le_add_right _ _⟩

theorem passes_sleep (last : Option Nat) (now : Nat) (d : Duration) :
    (Request.sleep d).Passes last now () (now + d.ceilMillis) :=
  ⟨Nat.le_add_right _ _, Nat.le_refl _, fun _ => rfl⟩

theorem Passes.le {last : Option Nat} {β : Type} {r : Request β} {now now' : Nat} {b : β}
    (h : r.Passes last now b now') : now ≤ now' := by
  cases r with
  | deadline d => exact Nat.le_of_eq h.2.2.symm
  | checkServer | checkFramework | updateServer | updateFramework | waitForSignals
  | joinTimer => exact h
  | _ => exact (h.bounds rfl).1

end Request

/-- Whether a process runs, and the milliseconds since the clock started. -/
structure Moment where
  up : Bool
  now : Nat
  deriving DecidableEq, Repr

/-- **Surroundings with one process and a clock**, which ends after `last`, if it ends.  The process
may exit at any moment, and does not come back.  Every other answer is possible at any time, and
takes the time that it takes. -/
def timely (h : Handle) (last : Option Nat) : Surroundings Moment where
  answers _ r s b t := (mortal h).answers r s.up b t.up ∧ r.Passes last s.now b t.now
  moves s t := (mortal h).moves s.up t.up ∧ t.now = s.now

section

variable {h : Handle} {last : Option Nat} {β : Type} {r : Request β} {b : β}
  {s t : Moment × List Exchange}

theorem timely_answers (ha : (timely h last).recorded.answers r s b t) :
    t.1.up = s.1.up ∧ t.2 = s.2 ++ [⟨r, b⟩] ∧ r.Passes last s.1.now b t.1.now := by
  obtain ⟨hup, hhist⟩ := mortal_answers (s := (s.1.up, s.2)) (t := (t.1.up, t.2)) ⟨ha.1.1, ha.2⟩
  exact ⟨hup, hhist, ha.1.2⟩

/-- A look finds what is the case. -/
theorem timely_isRunning {up : Bool} (ha : (timely h last).recorded.answers (.isRunning h) s up t) :
    up = s.1.up := ha.1.1.1 rfl

/-- Whatever has a longest time can be answered. -/
theorem exists_answer {span : Nat} (hr : r.span? = some span) (s : Moment × List Exchange) :
    ∃ b t, (timely h last).recorded.answers r s b t := by
  have of_passes (b : β) {now : Nat} (hm : (mortal h).answers r s.1.up b s.1.up)
      (hp : r.Passes last s.1.now b now) : ∃ b t, (timely h last).recorded.answers r s b t :=
    ⟨b, (⟨s.1.up, now⟩, s.2 ++ [⟨r, b⟩]), ⟨hm, hp⟩, rfl⟩
  cases r with
  | deadline | checkServer | checkFramework | updateServer | updateFramework | waitForSignals
  | joinTimer => exact nomatch hr
  | clock => exact of_passes (.ofMillis s.1.now) rfl ⟨rfl, rfl⟩
  | sleep d => exact of_passes () rfl (Request.passes_sleep _ _ d)
  | command text timeout => exact of_passes _ rfl .unsent
  | isRunning g => exact of_passes s.1.up ⟨fun _ => rfl, rfl⟩ rfl
  | spawn spec => exact of_passes (.ok ⟨0⟩) rfl rfl
  | interrupt g => exact of_passes (.ok ()) rfl rfl
  | terminate g => exact of_passes (.ok ()) rfl rfl
  | exitCode g => exact of_passes none rfl rfl
  | processId g => exact of_passes 0 rfl rfl
  | takeReason path fallback => exact of_passes fallback rfl rfl
  | canInterrupt g => exact of_passes true rfl rfl
  | isConnected => exact of_passes true rfl rfl
  | _ => exact of_passes () rfl rfl

end

/-! ## 3. The time that a program takes -/

namespace Program

variable {α β : Type} {m n : Nat}

/-- Whatever it is answered, a program without a repetition is over within a time. -/
def Within {α : Type} : Program α → Nat → Prop
  | .done _, _ => True
  | .ask r next, n => ∃ span, r.span? = some span ∧ span ≤ n ∧ ∀ b, (next b).Within (n - span)
  | .iterate .., _ => False

theorem within_pure (a : α) : (pure a : Program α).Within n := trivial

theorem within_request {r : Request β} {span : Nat} (hr : r.span? = some span) :
    (request r).Within span := ⟨span, hr, Nat.le_refl _, fun _ => trivial⟩

theorem Within.mono {p : Program α} (hp : p.Within m) (hmn : m ≤ n) : p.Within n := by
  induction p generalizing m n with
  | done a => trivial
  | ask r next ih =>
    obtain ⟨span, hr, hle, hnext⟩ := hp
    exact ⟨span, hr, Nat.le_trans hle hmn, fun b => ih b (hnext b) (Nat.sub_le_sub_right hmn span)⟩
  | iterate body state next _ _ => exact hp

theorem within_bind {p : Program β} {f : β → Program α} (hp : p.Within m)
    (hf : ∀ b, (f b).Within n) : (p >>= f).Within (m + n) := by
  show (p.bind f).Within (m + n)
  induction p generalizing m with
  | done b => exact (hf b).mono (Nat.le_add_left n m)
  | ask r next ih =>
    obtain ⟨span, hr, hle, hnext⟩ := hp
    refine ⟨span, hr, Nat.le_trans hle (Nat.le_add_right m n), fun b => ?_⟩
    rw [show m + n - span = m - span + n by omega]
    exact ih b (hnext b) hf
  | iterate body state next _ _ => exact absurd hp id

theorem within_request_bind {r : Request β} {span : Nat} {f : β → Program α}
    (hr : r.span? = some span) (hf : ∀ b, (f b).Within n) :
    (request r >>= f).Within (span + n) := within_bind (within_request hr) hf

/-- A request that takes no time. -/
theorem within_of_instant {r : Request β} {f : β → Program α} (hr : r.span? = some 0)
    (hf : ∀ b, (f b).Within n) : (request r >>= f).Within n :=
  Nat.zero_add n ▸ within_request_bind hr hf

end Program
end ServerWarden
