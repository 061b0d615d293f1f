/-
# The grace period of a stop, and how long a stop may take

A stop is held back for the delay `D` that its keeper goes by, while players are connected, and
then takes its resorts.  On a clock of whole milliseconds, from a start at `t`:

* it is over by `t + D` and 20 seconds, and twice the time of all looks for an exit;
* before `t + D` it takes a resort only if it is `Excused`: the console was not connected at first,
  or the last report was not readable or told of no players.

The console may answer each command at any time up to its timeout, or not at all; the server may
exit at any moment, and does not come back.  Queueing a frame takes no time.

The 20 seconds are two answers that never come, one to the last query of the delay and one to the
command to quit.  The query may begin just before `t + D` (`Keeper.Queried`); everything after the
delay is a straight line, whose time is the sum of its parts (`Program.Within`).  A round of the
delay ends in a sleep of at least a millisecond that does not go beyond `t + D`
(`Announcement.untilNext_bounds`), so there are no more rounds than milliseconds.
-/
import ServerWarden.Proofs.Control.Completion
import ServerWarden.Proofs.Control.Marks

namespace ServerWarden

open Surroundings

/-! ## 1. The waits of a stop -/

namespace Keeper

open Program

/-- The time of all looks for an exit. -/
def exitWait (k : Keeper) : Nat := k.stopPoll.attempts * k.stopPoll.interval.ceilMillis

theorem awaitExit_within (h : Handle) (interval : Duration) (attempts : Nat) :
    (awaitExit (some h) interval attempts).Within (attempts * interval.ceilMillis) := by
  induction attempts with
  | zero =>
    rw [Nat.zero_mul]
    exact within_of_instant rfl fun _ => within_pure _
  | succ attempts ih =>
    refine within_of_instant rfl fun up => ?_
    split
    · exact within_pure _
    · rw [Nat.succ_mul, Nat.add_comm]
      exact within_request_bind rfl fun _ => ih

/-- The looks for an exit, and the word about it. -/
theorem wait_within (k : Keeper) (h : Handle) (text : String) :
    (do if ← awaitExit (some h) k.stopPoll.interval k.stopPoll.attempts then info text :
      Program Unit).Within k.exitWait := by
  rw [← Nat.add_zero k.exitWait]
  refine within_bind (awaitExit_within h _ _) fun exited => ?_
  split
  · exact within_request rfl
  · exact within_pure _

theorem askToQuit_within (k : Keeper) (h : Handle) :
    (k.askToQuit h).Within (10000 + k.exitWait) := by
  refine within_of_instant rfl fun up => ?_
  split
  · refine within_of_instant rfl fun connected => ?_
    split
    · refine within_of_instant rfl fun _ => ?_
      have ten : commandTimeout.ceilMillis = 10000 := by decide
      exact ten ▸ within_request_bind rfl fun _ => k.wait_within h _
    · exact (within_request rfl).mono (Nat.zero_le _)
  · exact within_pure _

theorem interrupt_within (k : Keeper) (h : Handle) : (k.interrupt h).Within k.exitWait := by
  refine within_of_instant rfl fun up => ?_
  split
  · refine within_of_instant rfl fun possible => ?_
    split
    · refine within_of_instant rfl fun _ => within_of_instant rfl fun result => ?_
      cases result with
      | ok u => exact k.wait_within h _
      | error e => exact (within_request rfl).mono (Nat.zero_le _)
    · exact within_pure _
  · exact within_pure _

theorem terminate_within (h : Handle) : (terminate h).Within 0 := by
  refine within_of_instant rfl fun up => ?_
  split
  · refine within_of_instant rfl fun _ => within_of_instant rfl fun result => ?_
    cases result with
    | ok u => exact within_pure _
    | error e => exact within_of_instant rfl fun _ => within_request rfl
  · exact within_pure _

theorem reportExit_within (h : Handle) : (reportExit h).Within 0 := by
  refine within_of_instant rfl fun code => ?_
  split <;> exact within_request rfl

end Keeper

/-! ## 2. Grounds for not waiting -/

namespace Surroundings.Exchange

/-- Whether the console was found connected. -/
def connected? : Exchange → Option Bool
  | ⟨.isConnected, up⟩ => some up
  | _ => none

/-- The answer to a query for a report. -/
def report? : Exchange → Option String
  | ⟨.command text _, answer⟩ => if text = Keeper.queryCommand then some answer else none
  | _ => none

end Surroundings.Exchange

/-- Whether the console was connected when that was first asked. -/
def firstConnected? (history : List Exchange) : Option Bool :=
  (history.filterMap Exchange.connected?).head?

/-- The last answer to a query for a report. -/
def lastReport? (history : List Exchange) : Option String :=
  (history.filterMap Exchange.report?).getLast?

/-- **A stop need not be held back**: the console was not connected at first, or the last report was
not readable or told of no players. -/
def Excused (history : List Exchange) : Prop :=
  firstConnected? history = some false ∨
  ∃ answer, lastReport? history = some answer ∧
    ∀ report, Health.read? answer = some report → report.players = 0

section

variable {history : List Exchange} {x : Exchange}

theorem firstConnected?_append_of_none (hx : x.connected? = none) :
    firstConnected? (history ++ [x]) = firstConnected? history := by
  simp [firstConnected?, List.filterMap_append, hx]

theorem firstConnected?_append {up : Bool} (hn : firstConnected? history = none) :
    firstConnected? (history ++ [⟨.isConnected, up⟩]) = some up := by
  have hnil : history.filterMap Exchange.connected? = [] := List.head?_eq_none_iff.mp hn
  simp [firstConnected?, List.filterMap_append, hnil, Exchange.connected?]

theorem Excused.append (he : Excused history) (hx : x.report? = none) :
    Excused (history ++ [x]) := by
  rcases he with hf | ⟨answer, hl, hr⟩
  · refine Or.inl ?_
    rw [firstConnected?, List.filterMap_append, List.head?_append]
    rw [firstConnected?] at hf
    rw [hf]
    rfl
  · refine Or.inr ⟨answer, ?_, hr⟩
    rw [lastReport?, List.filterMap_append]
    simpa [hx, lastReport?] using hl

theorem Request.Lowers.report?_eq_none {β : Type} {r : Request β} (h : r.Lowers) (b : β) :
    (⟨r, b⟩ : Exchange).report? = none := by
  cases r with
  | command text timeout =>
    obtain rfl : text = Keeper.quitCommand := h
    show (if Keeper.quitCommand = Keeper.queryCommand then some b else none) = none
    exact if_neg (by decide)
  | _ => rfl

end

/-! ## 3. What a stop keeps -/

namespace Keeper

variable {k : Keeper} {h : Handle} {start delay due m n : Nat} {last : Option Nat}
  {s t : Moment × List Exchange}

/-- When a stop is over at the latest that may be due at a moment. -/
def latest (k : Keeper) (due : Nat) : Nat := due + 20000 + 2 * k.exitWait

/-- A resort may be taken. -/
def Ripe (due : Nat) (s : Moment × List Exchange) : Prop := due ≤ s.1.now ∨ Excused s.2

/-- A resort may be taken, or will not be: the server is gone. -/
def Free (due : Nat) (s : Moment × List Exchange) : Prop := s.1.up = false ∨ Ripe due s

/-- A stop is over in time, and takes no resort before it may.  Whatever it asks for can be
answered, if the clock holds the end of the delay. -/
def grace (k : Keeper) (h : Handle) (last : Option Nat) (start delay : Nat) :
    Duty (Moment × List Exchange) where
  always s := s.1.now ≤ k.latest (start + delay)
  asking _ r s := ((∃ b t, (timely h last).recorded.answers r s b t) ∨
    ¬ Instant.Holds last (start + delay)) ∧
    (r.resort? ≠ none → Ripe (start + delay) s)

/-- A program is over in time, and its result is as promised. -/
abbrev InTime (k : Keeper) (h : Handle) (last : Option Nat) (start delay : Nat) {α : Type}
    (p : Program α) (s : Moment × List Exchange) (post : α → Moment × List Exchange → Prop) :
    Prop :=
  (timely h last).recorded.Completes (k.grace h last start delay) post p s

theorem ripe_stable : (timely h last).recorded.Stable (Ripe due) := by
  rintro s t ⟨⟨-, hnow⟩, hhist⟩ hs
  unfold Ripe
  rw [hnow, hhist]
  exact hs

theorem free_stable : (timely h last).recorded.Stable (Free due) := by
  rintro s t hm (-  | hs)
  · exact Or.inl hm.1.1
  · exact Or.inr (ripe_stable hm hs)

theorem Ripe.answered {β : Type} {r : Request β} {b : β} (hs : Ripe due s) (hr : r.Lowers)
    (ha : (timely h last).recorded.answers r s b t) : Ripe due t := by
  obtain ⟨-, hhist, hpass⟩ := timely_answers ha
  rcases hs with hnow | he
  · exact Or.inl (Nat.le_trans hnow hpass.le)
  · exact Or.inr (hhist ▸ he.append (hr.report?_eq_none b))

theorem Free.answered {β : Type} {r : Request β} {b : β} (hs : Free due s) (hr : r.Lowers)
    (ha : (timely h last).recorded.answers r s b t) : Free due t := by
  rcases hs with hgone | hd
  · exact Or.inl ((timely_answers ha).1.trans hgone)
  · exact Or.inr (hd.answered hr ha)

/-- A request that is no resort may come at any time. -/
theorem grace_asking {β : Type} {r : Request β} {span : Nat} (hr : r.span? = some span)
    (hn : r.resort? = none) : (k.grace h last start delay).asking r s :=
  ⟨Or.inl (exists_answer hr s), fun hne => absurd hn hne⟩

/-- A condition on the time and the past alone. -/
def clocked (Q : Nat → List Exchange → Prop)
    (hQ : ∀ now history, Q now history → now ≤ k.latest (start + delay)) :
    Condition (timely h last).recorded (k.grace h last start delay) where
  holds s := Q s.1.now s.2
  stable := by
    rintro s t ⟨⟨-, hnow⟩, hhist⟩ hs
    rw [hnow, hhist]
    exact hs
  always s hs := hQ _ _ hs

/-- A condition until a time. -/
def upTo (P : Moment × List Exchange → Prop) (hP : (timely h last).recorded.Stable P)
    (hm : m ≤ k.latest (start + delay)) :
    Condition (timely h last).recorded (k.grace h last start delay) where
  holds s := P s ∧ s.1.now ≤ m
  stable := by
    rintro s t hmove ⟨hs, hnow⟩
    exact ⟨hP hmove hs, hmove.1.2 ▸ hnow⟩
  always _ hs := Nat.le_trans hs.2 hm

theorem due_le_latest (k : Keeper) (due : Nat) : due + 10000 ≤ k.latest due := by
  unfold latest
  omega

/-- The delay is over: a resort may be taken or the server is gone, and the last query is over. -/
def Released (due : Nat) (s : Moment × List Exchange) : Prop :=
  Free due s ∧ s.1.now ≤ due + 10000

def releasing : Condition (timely h last).recorded (k.grace h last start delay) :=
  upTo (Free (start + delay)) free_stable (k.due_le_latest _)

/-- **A program that takes a known time** is over in it, and keeps what its requests keep. -/
theorem inTime_of_within {α : Type} {P : Moment × List Exchange → Prop}
    {A : ⦃β : Type⦄ → Request β → Prop} {p : Program α} (hP : (timely h last).recorded.Stable P)
    (keep : ∀ {β : Type} (r : Request β) (s : Moment × List Exchange), A r → P s →
      (r.resort? ≠ none → Ripe (start + delay) s) ∧
      ∀ b t, (timely h last).recorded.answers r s b t → P t)
    (hp : p.Asks A) (hw : p.Within n) (hb : m + n ≤ k.latest (start + delay)) (hs : P s)
    (hm : s.1.now ≤ m) :
    k.InTime h last start delay p s fun _ t => P t ∧ t.1.now ≤ m + n := by
  have hml : m ≤ k.latest (start + delay) := Nat.le_trans (Nat.le_add_right m n) hb
  induction p generalizing m n s with
  | done a =>
    exact .done (upTo P hP hml) ⟨hs, hm⟩ fun t ht =>
      ⟨ht.1, Nat.le_trans ht.2 (Nat.le_add_right m n)⟩
  | ask r next ih =>
    obtain ⟨span, hr, hle, hnext⟩ := hw
    refine .ask (upTo P hP hml) ⟨hs, hm⟩ (fun t ht => ?_) fun t b u ht ha => ?_
    · exact ⟨Or.inl (exists_answer hr t), (keep r t hp.1 ht.1).1⟩
    · have hnow : u.1.now ≤ m + span :=
        Nat.le_trans ((timely_answers ha).2.2.bounds hr).2 (Nat.add_le_add_right ht.2 span)
      have hsum : m + span + (n - span) = m + n := by omega
      have hend := ih b (m := m + span) (n := n - span) (hp.2 b) (hnext b) (hsum ▸ hb)
        ((keep r t hp.1 ht.1).2 b u ha) hnow (by omega)
      exact hsum ▸ hend
  | iterate body state next _ _ => exact absurd hw id

/-! ## 4. After the delay -/

/-- **One resort**: a look whether the server runs, and the resort if it does. -/
theorem resort_inTime {f : Bool → Program Unit} (hl : ∀ up, (f up).Asks Request.Lowers)
    (hgone : f false = pure ()) (hw : (Program.request (.isRunning h) >>= f).Within n)
    (hb : m + n ≤ k.latest (start + delay)) (hs : Free (start + delay) s) (hm : s.1.now ≤ m) :
    k.InTime h last start delay (Program.request (.isRunning h) >>= f) s
      fun _ t => Free (start + delay) t ∧ t.1.now ≤ m + n := by
  have hml : m ≤ k.latest (start + delay) := Nat.le_trans (Nat.le_add_right m n) hb
  have hwf : ∀ up, (f up).Within n := by
    obtain ⟨span, hr, -, hnext⟩ := hw
    obtain rfl : 0 = span := Option.some.inj hr
    exact hnext
  refine .request (upTo (Free _) free_stable hml) ⟨hs, hm⟩ (fun _ _ => grace_asking rfl rfl)
    fun t up u ht ha => ?_
  obtain ⟨hup, -, hpass⟩ := timely_answers ha
  have hnow : u.1.now ≤ m := hpass.symm ▸ ht.2
  have hseen : up = u.1.up := (timely_isRunning ha).trans hup.symm
  have hu : Free (start + delay) u := ht.1.answered (r := .isRunning h) trivial ha
  cases up with
  | false =>
    rw [hgone]
    exact .done (upTo (Free _) free_stable hml) ⟨hu, hnow⟩ fun v hv =>
      ⟨hv.1, Nat.le_trans hv.2 (Nat.le_add_right m n)⟩
  | true =>
    have hripe : Ripe (start + delay) u :=
      hu.resolve_left fun hdown => absurd (hseen.trans hdown) (by decide)
    refine (inTime_of_within ripe_stable (fun r v hr hv => ⟨fun _ => hv, fun b w hw' => ?_⟩)
      (hl true) (hwf true) hb hripe hnow).mono fun _ v hv => ⟨Or.inr hv.1, hv.2⟩
    exact hv.answered hr hw'

/-- What takes no resort is over in its time, whatever is known. -/
theorem inTime_of_peaceful {α : Type} {p : Program α}
    (hp : p.Asks fun _ r => r.resort? = none) (hw : p.Within n)
    (hb : m + n ≤ k.latest (start + delay)) (hm : s.1.now ≤ m) :
    k.InTime h last start delay p s fun _ _ => True :=
  (inTime_of_within (P := fun _ => True) (fun _ _ _ _ => trivial)
    (fun _ _ hr _ => ⟨fun hne => absurd hr hne, fun _ _ _ => trivial⟩) hp hw hb trivial hm).mono
    fun _ _ _ => trivial

/-- **What comes after the delay**: three resorts, the word about the end, and the release. -/
theorem lower_inTime (k : Keeper) (hs : Released (start + delay) s) :
    k.InTime h last start delay
      (do
        k.askToQuit h
        k.interrupt h
        terminate h
        reportExit h
        Program.request (.release h)) s fun _ _ => True := by
  have hlatest : k.latest (start + delay)
      = start + delay + 10000 + (10000 + k.exitWait) + k.exitWait := by
    unfold latest
    omega
  refine .bind (resort_inTime (fun up => (askToQuit_lowers k h).2 up) rfl
    (k.askToQuit_within h) (by omega) hs.1 hs.2) fun _ t ht => ?_
  refine .bind (resort_inTime (fun up => (interrupt_lowers k h).2 up) rfl
    (k.interrupt_within h) (by omega) ht.1 ht.2) fun _ t ht => ?_
  refine .bind (resort_inTime (fun up => (terminate_lowers h).2 up) rfl
    (terminate_within h) (by omega) ht.1 ht.2) fun _ t ht => ?_
  refine inTime_of_peaceful (Program.asks_bind ?_ fun _ => Program.asks_request.2 rfl)
    (n := 0 + 0) (Program.within_bind (reportExit_within h) fun _ => Program.within_request rfl)
    (by omega) ht.2
  exact (reportExit_observes h).mono fun _ => Request.Observes.resort?_eq_none

/-! ## 5. At one moment -/

/-- The clock shows a time. -/
def atTime (hn : n ≤ k.latest (start + delay)) :
    Condition (timely h last).recorded (k.grace h last start delay) :=
  clocked (fun now _ => now = n) fun _ _ hnow => hnow ▸ hn

/-- The clock shows a time, and the server is gone. -/
def goneAt (hn : n ≤ k.latest (start + delay)) :
    Condition (timely h last).recorded (k.grace h last start delay) where
  holds s := s.1.up = false ∧ s.1.now = n
  stable := fun _ _ hm hs => ⟨hm.1.1, hm.1.2.trans hs.2⟩
  always := fun _ hs => Nat.le_trans (Nat.le_of_eq hs.2) hn

theorem instant_inTime {β : Type} {r : Request β} (hr : r.span? = some 0)
    (hpeace : r.resort? = none) (hn : n ≤ k.latest (start + delay)) (hs : s.1.now = n) :
    k.InTime h last start delay (Program.request r) s fun _ t => t.1.now = n := by
  refine .ask (atTime hn) hs (fun _ _ => grace_asking hr hpeace) fun t b u ht ha => ?_
  have hbounds := (timely_answers ha).2.2.bounds hr
  have ht : t.1.now = n := ht
  have hu : u.1.now = n := by omega
  exact .done (atTime hn) hu fun _ hv => hv

theorem clock_inTime (hn : n ≤ k.latest (start + delay)) (hs : s.1.now = n) :
    k.InTime h last start delay (Program.request .clock) s
      fun i t => i = .ofMillis n ∧ t.1.now = n := by
  refine .ask (atTime hn) hs (fun _ _ => grace_asking rfl rfl) fun t i u ht ha => ?_
  obtain ⟨-, -, hi, hsame⟩ := timely_answers ha
  have ht : t.1.now = n := ht
  exact .done (atTime hn) (hsame.trans ht) fun _ hv => ⟨ht ▸ hi, hv⟩

/-- A look at the server. -/
theorem look_inTime (hn : n ≤ k.latest (start + delay)) (hs : s.1.now = n) :
    k.InTime h last start delay (Program.request (.isRunning h)) s
      fun up t => t.1.now = n ∧ (up = false → t.1.up = false) := by
  refine .ask (atTime hn) hs (fun _ _ => grace_asking rfl rfl) fun t up u ht ha => ?_
  obtain ⟨hup, -, hsame⟩ := timely_answers ha
  have hu : u.1.now = n := Eq.trans hsame ht
  have hseen : up = u.1.up := (timely_isRunning ha).trans hup.symm
  cases up with
  | false => exact .done (goneAt hn) ⟨hseen.symm, hu⟩ fun _ hv => ⟨hv.2, fun _ => hv.1⟩
  | true => exact .done (atTime hn) hu fun _ hv => ⟨hv, nofun⟩

theorem talk_inTime {level : Log.Level} {speaker : Log.Speaker} {text : String}
    (hs : Released (start + delay) s) :
    k.InTime h last start delay (Program.say level speaker text) s
      fun _ t => Released (start + delay) t := by
  refine .ask releasing hs (fun _ _ => grace_asking rfl rfl) fun t x u ht ha => ?_
  have hu : Free (start + delay) u := ht.1.answered (r := .say level speaker text) trivial ha
  have hsame : u.1.now = t.1.now := (timely_answers ha).2.2
  exact .done releasing ⟨hu, hsame ▸ ht.2⟩ fun _ hv => hv

/-! ## 6. The delay -/

/-- What a query during the delay leads to, if it begins before its end. -/
structure Queried (due begun : Nat) (report : Option Health) (s : Moment × List Exchange) :
    Prop where
  begun_le : begun ≤ s.1.now
  le : s.1.now ≤ due + 10000
  free_of_none : report = none → Free due s
  ripe_of_empty : ∀ r, report = some r → r.players = 0 → Ripe due s

/-- **A query of the delay.**  Without a report the server is gone, or the query is the excuse. -/
theorem query_inTime (hn : n < start + delay) (hs : s.1.now = n) :
    k.InTime h last start delay (query (some h)) s (Queried (start + delay) n) := by
  have hlatest := k.due_le_latest (start + delay)
  have hnow : n ≤ k.latest (start + delay) := by omega
  refine .bind (look_inTime hnow hs) fun up t ht => ?_
  cases up with
  | false =>
    refine .done (goneAt hnow) ⟨ht.2 rfl, ht.1⟩ fun v hv => ?_
    have hstill : v.1.now = n := hv.2
    exact ⟨by omega, by omega, fun _ => Or.inl hv.1, fun _ hr => nomatch hr⟩
  | true =>
    refine .request (atTime hnow) ht.1 (fun _ _ => grace_asking rfl rfl)
      fun t answer u ht ha => ?_
    obtain ⟨-, hhist, hpass⟩ := timely_answers ha
    obtain ⟨hle, hspan⟩ : t.1.now ≤ u.1.now ∧ u.1.now ≤ t.1.now + 10000 := hpass.bounds rfl
    have ht : t.1.now = n := ht
    have hlast : lastReport? u.2 = some answer := by
      rw [hhist, lastReport?, List.filterMap_append]
      simp [Exchange.report?]
    let A : Condition (timely h last).recorded (k.grace h last start delay) :=
      clocked (fun now history => n ≤ now ∧ now ≤ start + delay + 10000 ∧
        lastReport? history = some answer) fun _ _ hnow => Nat.le_trans hnow.2.1 hlatest
    refine .done A ⟨by omega, by omega, hlast⟩ fun v hv => ⟨hv.1, hv.2.1, ?_, ?_⟩
    · intro hnone
      refine Or.inr (Or.inr (Or.inr ⟨answer, hv.2.2, fun r hr => ?_⟩))
      exact nomatch hnone.symm.trans hr
    · intro r hr hzero
      refine Or.inr (Or.inr ⟨answer, hv.2.2, fun r' hr' => ?_⟩)
      obtain rfl : r = r' := Option.some.inj (hr.symm.trans hr')
      exact hzero

/-- What one round of the delay leads to: the next one, later, or the end of the delay. -/
def RoundOver (due begun : Nat) : Unit ⊕ Unit → Moment × List Exchange → Prop :=
  Upholds.Turn (fun _ t => begun < t.1.now ∧ t.1.now ≤ due) fun _ t => Released due t

/-- Telling the players and waiting for the next announcement, if time is left. -/
theorem announce_inTime (reason : String)
    (hfit : Instant.Holds last (start + delay))
    (hn : n ≤ s.1.now) (hm : s.1.now ≤ start + delay + 10000) :
    k.InTime h last start delay
      (do
        let remaining := (Instant.ofMillis (start + delay)).since (← Program.request .clock)
        if remaining.isZero then return .inr ()
        else
          let _ ← Program.request (.command (Announcement.command remaining reason) .zero)
          Program.request (.sleep (Announcement.untilNext remaining))
          return .inl ()) s (RoundOver (start + delay) n) := by
  have hlatest := k.due_le_latest (start + delay)
  generalize hs : s.1.now = now at hn hm
  have hnow : now ≤ k.latest (start + delay) := Nat.le_trans hm hlatest
  refine .bind (clock_inTime hnow hs) fun i t ht => ?_
  obtain ⟨rfl, ht⟩ := ht
  simp only [Instant.since_ofMillis]
  split
  · rename_i hzero
    have hover : start + delay - now = 0 := (Duration.isZero_ofMillis _).mp hzero
    exact .done releasing ⟨Or.inr (Or.inl (by omega)), by omega⟩ fun _ hv => hv
  · rename_i hzero
    have hleft : 0 < start + delay - now :=
      Nat.pos_of_ne_zero fun h0 => hzero ((Duration.isZero_ofMillis _).mpr h0)
    obtain ⟨wait, hwait, hpos, hle⟩ := Announcement.untilNext_bounds hleft
    have hpeace : (Request.command (Announcement.command (.ofMillis (start + delay - now)) reason)
        .zero).resort? = none := Request.Observes.resort?_eq_none (command_ne_quit _ _)
    refine .bind (instant_inTime rfl hpeace hnow ht) fun answer t ht => ?_
    rw [hwait]
    refine .request (atTime hnow) ht (fun _ _ => grace_asking rfl rfl) fun t x u ht ha => ?_
    have ht : t.1.now = now := ht
    have hspan : (Duration.ofMillis wait).ceilMillis = wait := Duration.ceilMillis_ofMillis wait
    have hend : u.1.now = t.1.now + (Duration.ofMillis wait).ceilMillis :=
      (timely_answers ha).2.2.2.2 (hfit.mono (by omega))
    let E : Condition (timely h last).recorded (k.grace h last start delay) :=
      clocked (fun now' _ => n < now' ∧ now' ≤ start + delay) fun now' _ h' => by omega
    exact .done E ⟨by omega, by omega⟩ fun _ hv => hv

/-- **One round of the delay** ends it, and then a resort may be taken or the server is gone; or it
takes at least a millisecond, and does not go beyond the end of the delay. -/
theorem holdBackRound_inTime (reason : String)
    (hfit : Instant.Holds last (start + delay))
    (hn : n ≤ start + delay) (hs : s.1.now = n) :
    k.InTime h last start delay (holdBackRound (some h) reason (.ofMillis (start + delay))) s
      (RoundOver (start + delay) n) := by
  have hlatest := k.due_le_latest (start + delay)
  have hnow : n ≤ k.latest (start + delay) := by omega
  refine .bind (clock_inTime hnow hs) fun i t ht => ?_
  obtain ⟨rfl, ht⟩ := ht
  split
  · rename_i hlate
    have hdue : start + delay ≤ n := by simpa [Instant.ofMillis_lt] using hlate
    exact .done releasing ⟨Or.inr (Or.inl (by omega)), by omega⟩ fun _ hv => hv
  rename_i hlate
  have hearly : n < start + delay := by simpa [Instant.ofMillis_lt] using hlate
  refine .bind (look_inTime hnow ht) fun up u hu => ?_
  cases up with
  | false => exact .done releasing ⟨Or.inl (hu.2 rfl), by omega⟩ fun _ hv => hv
  | true =>
    refine .bind (query_inTime hearly hu.1) fun report v hv => ?_
    cases report with
    | none =>
      exact .bind (talk_inTime ⟨hv.free_of_none rfl, hv.le⟩) fun _ w hw =>
        .done releasing hw fun _ hx => hx
    | some report =>
      dsimp only
      split
      · rename_i hempty
        have hripe : Ripe (start + delay) v := hv.ripe_of_empty report rfl hempty
        exact .bind (talk_inTime ⟨Or.inr hripe, hv.le⟩) fun _ w hw =>
          .done releasing hw fun _ hx => hx
      · exact announce_inTime reason hfit hv.begun_le hv.le

/-- **The rounds of the delay** come to an end, as each begins later than the one before, and none
after the end of the delay. -/
theorem rounds_inTime (reason : String)
    (hfit : Instant.Holds last (start + delay))
    (hs : s.1.now ≤ start + delay) :
    k.InTime h last start delay
      (Program.loop (fun () => holdBackRound (some h) reason (.ofMillis (start + delay))) ()) s
      fun _ t => Released (start + delay) t := by
  refine .iterate (fun _ t => t.1.now ≤ start + delay) (fun _ t => start + delay - t.1.now)
    (fun _ t ht => ?_) hs
  refine (holdBackRound_inTime reason hfit ht rfl).mono fun x u hu => ?_
  cases x with
  | inr b => exact .done releasing hu fun _ hv => hv
  | inl i =>
    obtain ⟨hlt, hle⟩ : t.1.now < u.1.now ∧ u.1.now ≤ start + delay := hu
    have hless : start + delay - u.1.now < start + delay - t.1.now := by omega
    exact ⟨hle, hless⟩

/-- Nothing has happened but looks at the server and talk. -/
def Fresh (start : Nat) (now : Nat) (history : List Exchange) : Prop :=
  now = start ∧ firstConnected? history = none

def freshly : Condition (timely h last).recorded (k.grace h last start delay) :=
  clocked (Fresh start) fun now _ hnow => by
    have hlatest := k.due_le_latest (start + delay)
    have hstart : now = start := hnow.1
    omega

/-- **The whole delay.** -/
theorem holdBack_inTime (hd : k.shutdownDelay = .ofMillis delay) (reason : String)
    (hs : Fresh start s.1.now s.2) :
    k.InTime h last start delay (k.holdBack (some h) reason) s
      fun _ t => Released (start + delay) t := by
  have hlatest := k.due_le_latest (start + delay)
  have hstart : start ≤ k.latest (start + delay) := by omega
  have hnow : s.1.now = start := hs.1
  unfold holdBack
  rw [hd]
  split
  · rename_i hzero
    have hnone : delay = 0 := (Duration.isZero_ofMillis delay).mp hzero
    exact .done releasing ⟨Or.inr (Or.inl (by omega)), by omega⟩ fun _ hv => hv
  refine .request freshly hs (fun _ _ => grace_asking rfl rfl) fun t connected u ht ha => ?_
  obtain ⟨-, hhist, hsame⟩ := timely_answers ha
  have hnow : u.1.now = start := Eq.trans hsame ht.1
  have hfirst : firstConnected? u.2 = some connected := hhist ▸ firstConnected?_append ht.2
  cases connected with
  | false => exact talk_inTime ⟨Or.inr (Or.inr (Or.inl hfirst)), by omega⟩
  | true =>
    refine .bind (instant_inTime rfl rfl hstart hnow) fun _ t ht => ?_
    refine .request (atTime hstart) ht (fun t ht => ⟨?_, nofun⟩) fun t deadline u ht ha => ?_
    · have hend : t.1.now + (Duration.ofMillis delay).ceilMillis = start + delay := by
        rw [Duration.ceilMillis_ofMillis, show t.1.now = start from ht]
      by_cases hfit : Instant.Holds last (start + delay)
      · exact Or.inl ⟨_, (t.1, t.2 ++ [_]), ⟨rfl, rfl, hend ▸ hfit, rfl⟩, rfl⟩
      · exact Or.inr hfit
    · obtain ⟨-, -, hadd, hfit, hsame⟩ := timely_answers ha
      have hnow : u.1.now = start := Eq.trans hsame ht
      rw [show t.1.now = start from ht] at hadd hfit
      rw [Duration.ceilMillis_ofMillis] at hfit
      obtain rfl : deadline = .ofMillis (start + delay) :=
        hadd.trans (Instant.ofMillis_add start delay)
      exact rounds_inTime reason hfit (by omega)

/-! ## 7. The whole stop -/

theorem Fresh.append {x : Exchange} (hs : Fresh start t.1.now t.2) (hx : x.connected? = none)
    (hsame : s.1.now = t.1.now) (hhist : s.2 = t.2 ++ [x]) : Fresh start s.1.now s.2 := by
  rw [hsame, hhist]
  exact ⟨hs.1, (firstConnected?_append_of_none hx).trans hs.2⟩

theorem stop_inTime (hd : k.shutdownDelay = .ofMillis delay) {held : Option Handle}
    (hheld : ∀ g, held = some g → g = h) (reason : String) (up : Bool) :
    k.InTime h last start delay (k.stop held reason) (⟨up, start⟩, []) fun _ _ => True := by
  have hlatest := k.due_le_latest (start + delay)
  cases held with
  | none => exact .done freshly ⟨rfl, rfl⟩ fun _ _ => trivial
  | some g =>
    obtain rfl := hheld g rfl
    refine .request freshly ⟨rfl, rfl⟩ (fun _ _ => grace_asking rfl rfl) fun t up u ht ha => ?_
    obtain ⟨-, hhist, hsame⟩ := timely_answers ha
    have hu : Fresh start u.1.now u.2 := Fresh.append ht rfl hsame hhist
    split
    · exact inTime_of_peaceful (m := start) (Program.asks_request.2 rfl)
        (Program.within_request rfl) (by omega) (Nat.le_of_eq hu.1)
    · refine .request freshly hu (fun _ _ => grace_asking rfl rfl) fun t x v ht ha => ?_
      obtain ⟨-, hhist, hsame⟩ := timely_answers ha
      have hv : Fresh start v.1.now v.2 := Fresh.append ht rfl hsame hhist
      exact .bind (holdBack_inTime hd reason hv) fun _ w hw => k.lower_inTime hw

/-- **A stop keeps its grace period and is over in time.**  In every run of a stop, for a delay of
whole milliseconds: the clock never shows more than the start, the delay, 20 seconds and twice the
time of all looks for an exit; a resort before the end of the delay is excused; and the stop
returns, on every clock that does not end before the delay does. -/
theorem stop_in_time (k : Keeper) {delay : Nat} (hd : k.shutdownDelay = .ofMillis delay)
    {h : Handle} {held : Option Handle} (hheld : ∀ g, held = some g → g = h) (reason : String)
    (up : Bool) (start : Nat) (last : Option Nat) :
    (∀ {q : Program Unit} {s : Moment × List Exchange},
      (timely h last).recorded.Reaches (k.stop held reason) (⟨up, start⟩, []) q s →
      s.1.now ≤ start + delay + 20000
        + 2 * k.stopPoll.attempts * k.stopPoll.interval.ceilMillis ∧
      ∀ {β : Type} {r : Request β} {next : β → Program Unit},
        q = .ask r next → r.resort? ≠ none → s.1.now < start + delay → Excused s.2) ∧
    (Instant.Holds last (start + delay) →
      (timely h last).recorded.Returns (k.stop held reason) (⟨up, start⟩, [])) := by
  have hstop : k.InTime h last start delay (k.stop held reason) (⟨up, start⟩, []) fun _ _ => True :=
    stop_inTime hd hheld reason up
  refine ⟨fun {q s} hr => ⟨?_, ?_⟩, fun hfit => ?_⟩
  · have hmost : s.1.now ≤ k.latest (start + delay) := (hstop.upholds hr).always
    rw [latest, exitWait, ← Nat.mul_assoc] at hmost
    exact hmost
  · rintro β r next rfl hresort hearly
    have hripe : Ripe (start + delay) s := (hstop.upholds hr).2.2 hresort
    exact hripe.resolve_left (Nat.not_le_of_lt hearly)
  · exact hstop.returns fun _ _ hask => hask.1.resolve_right (not_not_intro hfit)

/-- A server with one player that runs on whatever it is told, and a console that answers queries at
once and the command to quit never. -/
def crowded : Player (timely ⟨0⟩ none) where
  answer
    | _, .clock, s => some (.ofMillis s.now, s)
    | _, .deadline d, s => some ((Instant.ofMillis s.now).add d, s)
    | _, .sleep d, s => some ((), { s with now := s.now + d.ceilMillis })
    | _, .say .., s => some ((), s)
    | _, .isRunning _, s => some (s.up, s)
    | _, .canInterrupt _, s => some (true, s)
    | _, .interrupt _, s => some (.ok (), s)
    | _, .terminate _, s => some (.ok (), s)
    | _, .exitCode _, s => some (none, s)
    | _, .release _, s => some ((), s)
    | _, .isConnected, s => some (true, s)
    | _, .command text timeout, s =>
      if timeout.isZero then some ("", s)
      else if text = queryCommand then
        some ("\x7b\"Players\":1,\"Protocol\":\"1\"\x7d", s)
      else some ("", { s with now := s.now + timeout.ceilMillis })
    | _, _, _ => none
  possible := by
    intro β r s s' b hb
    cases r <;> simp only [Option.some.injEq, Prod.mk.injEq, reduceCtorEq] at hb
    case clock =>
      obtain ⟨rfl, rfl⟩ := hb
      exact ⟨rfl, rfl, rfl⟩
    case deadline d =>
      obtain ⟨rfl, rfl⟩ := hb
      exact ⟨rfl, rfl, Instant.holds_none _, rfl⟩
    case sleep d =>
      obtain ⟨-, rfl⟩ := hb
      exact ⟨rfl, Request.passes_sleep none s.now d⟩
    case isRunning g =>
      obtain ⟨rfl, rfl⟩ := hb
      exact ⟨⟨fun _ => rfl, rfl⟩, rfl⟩
    case command text timeout =>
      split at hb
      · cases hb
        exact ⟨rfl, .unsent⟩
      · rename_i htime
        have ht : timeout.isZero = false := Bool.eq_false_iff.mpr htime
        split at hb
        · cases hb
          exact ⟨rfl, .at_once _ ht⟩
        · cases hb
          exact ⟨rfl, .at_deadline (.connect ⟨"", 0, "", false, 0⟩) ⟨1, 0, 0⟩ ht⟩
    all_goals
      obtain ⟨-, rfl⟩ := hb
      exact ⟨rfl, rfl⟩

/-- A keeper that holds a stop back for five seconds, and waits twice for an exit. -/
def gracious : Keeper :=
  ⟨⟨"server", [], "."⟩, .ofMillis 5000, ⟨.ofSecs 2, 10⟩, ⟨.ofSecs 1, 2⟩⟩

/-- The player is waited for, and all resorts are taken, in 19 of the 29 seconds that there are. -/
theorem stop_in_time_crowded : ∃ s : Moment × List Exchange,
    (timely ⟨0⟩ none).recorded.Reaches (gracious.stop (some ⟨0⟩) "update") (⟨true, 0⟩, [])
      (.done ()) s ∧
    resorts s.2 = [.quit, .interrupt ⟨0⟩, .terminate ⟨0⟩] ∧ s.1.now = 19000 ∧ s.1.now ≤ 29000 ∧
    (timely ⟨0⟩ none).recorded.Returns (gracious.stop (some ⟨0⟩) "update") (⟨true, 0⟩, []) := by
  let p := gracious.stop (some ⟨0⟩) "update"
  have hp : (crowded.recorded.play 100 p (⟨true, 0⟩, [])).1 = .done () :=
    Program.eq_done_of_result? (by decide +kernel)
  have reaches := hp ▸ crowded.recorded.reaches 100 p (⟨true, 0⟩, [])
  have hheld : ∀ g : Handle, some ⟨0⟩ = some g → g = ⟨0⟩ := fun g hg => (Option.some.inj hg).symm
  have hd : gracious.shutdownDelay = .ofMillis 5000 := rfl
  have bounds := stop_in_time gracious hd hheld "update" true 0 none
  exact ⟨_, reaches, by decide +kernel, by decide +kernel, (bounds.1 reaches).1,
    bounds.2 (Instant.holds_none _)⟩

end Keeper
end ServerWarden
