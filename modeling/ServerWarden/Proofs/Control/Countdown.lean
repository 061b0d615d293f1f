/-
# The countdown of a shutdown

As long as players stay on the server, and the console answers each query within a second, a stop is
held back for its whole delay, and all marks of that delay are announced, each once.

What a round of the delay is worth does not depend on how long its query takes.  The query of the
round for `n` seconds is answered when more than `n - 1` seconds are left, so that `n` is what is
announced; and the wait is counted from the moment of the answer, so that it ends when the greatest
mark below `n` is left, to the millisecond (`holdBackRound_counts`).  A late answer is made up for
by the wait after it, and nothing adds up.

`countdown` is the list of what is still to be announced.  Each round takes its head, and the last
one leaves it empty at the moment at which the delay is over (`rounds_count`).
-/
import ServerWarden.Proofs.Control.Completion
import ServerWarden.Proofs.Control.Marks

namespace ServerWarden

open Surroundings

/-! ## 1. A server with players -/

namespace Request

/-- `r.Attended now b now'`: an answer `b` at `now'` to a request of `now`, as a server with players
gives it.  It runs, its console is connected, and a query is answered within a second, by a report
that tells of a player. -/
def Attended : ⦃β : Type⦄ → Request β → Nat → β → Nat → Prop
  | _, .isRunning _, _, up, _ => up = true
  | _, .isConnected, _, up, _ => up = true
  | _, .command text _, now, answer, now' => text = Keeper.queryCommand →
      now' < now + 1000 ∧ ∃ report, Health.read? answer = some report ∧ 0 < report.players
  | _, _, _, _, _ => True

/-- The command that a request is, unless it is a query. -/
def told? : ⦃β : Type⦄ → Request β → Option String
  | _, .command text _ => if text = Keeper.queryCommand then none else some text
  | _, _ => none

/-- A query leaves time for an answer. -/
def Patient : ⦃β : Type⦄ → Request β → Prop
  | _, .command text timeout => text = Keeper.queryCommand → timeout.isZero = false
  | _, _ => True

end Request

/-- **A server that keeps running, with players on it**, and a clock that ends after `last`, if it
ends.  A query may take any whole number of milliseconds below a second. -/
def attended (h : Handle) (last : Option Nat) : Surroundings Moment where
  answers _ r s b t := (timely h last).answers r s b t ∧ r.Attended s.now b t.now
  moves s t := (timely h last).moves s t ∧ t.up = s.up

/-- The commands of a history that are no queries. -/
def announced (history : List Exchange) : List String :=
  history.filterMap fun x => x.request.told?

/-- What players are told when a number of seconds is left. -/
def announcement (reason : String) (seconds : Nat) : String :=
  s!"say *** Shutdown in {seconds} second(s) for reason: {reason}"

theorem command_of_close {d : Duration} {n late : Nat} (hd : d.millis = 1000 * n - late)
    (hlate : late < 1000) (reason : String) :
    Announcement.command d reason = announcement reason n := by
  have hceil : Announcement.ceilSecs d = n := by
    rw [Announcement.ceilSecs, hd]
    omega
  unfold Announcement.command announcement
  rw [hceil]

/-- A report of one player. -/
def onePlayer : String := "\x7b\"Players\":1,\"Protocol\":\"1\"\x7d"

theorem read?_onePlayer : Health.read? onePlayer = some ⟨1, "1"⟩ := by decide +kernel

section

variable {h : Handle} {last : Option Nat} {β : Type} {r : Request β} {b : β}
  {s t : Moment × List Exchange}

theorem attended_answers (ha : (attended h last).recorded.answers r s b t) :
    t.1.up = s.1.up ∧ announced t.2 = announced s.2 ++ r.told?.toList ∧
    r.Passes last s.1.now b t.1.now ∧ r.Attended s.1.now b t.1.now := by
  obtain ⟨hup, hhist, hpass⟩ := timely_answers (s := s) (t := t) ⟨ha.1.1, ha.2⟩
  refine ⟨hup, ?_, hpass, ha.1.2⟩
  rw [hhist, announced, List.filterMap_append, announced]
  cases htold : r.told? <;> simp [htold]

/-- Whatever has a longest time can be answered by a server with players. -/
theorem exists_attended {span : Nat} (hr : r.span? = some span) (hp : r.Patient)
    (hup : s.1.up = true) : ∃ b t, (attended h last).recorded.answers r s b t := by
  -- most requests may be answered in any way
  have open_ended (hany : ∀ b now', r.Attended s.1.now b now') :
      ∃ b t, (attended h last).recorded.answers r s b t := by
    obtain ⟨b, t, ha, hhist⟩ : ∃ b t, (timely h last).recorded.answers r s b t :=
      exists_answer hr s
    exact ⟨b, t, ⟨ha, hany b t.1.now⟩, hhist⟩
  cases r with
  | isRunning g => exact ⟨true, (s.1, s.2 ++ [_]), ⟨⟨⟨fun _ => hup.symm, rfl⟩, rfl⟩, rfl⟩, rfl⟩
  | isConnected => exact ⟨true, (s.1, s.2 ++ [_]), ⟨⟨rfl, rfl⟩, rfl⟩, rfl⟩
  | command text timeout =>
    by_cases hquery : text = Keeper.queryCommand
    · refine ⟨onePlayer, (s.1, s.2 ++ [_]),
        ⟨⟨rfl, .at_once _ (hp hquery)⟩, fun _ => ⟨?_, ?_⟩⟩, rfl⟩
      · exact Nat.lt_add_of_pos_right (by decide)
      · exact ⟨⟨1, "1"⟩, read?_onePlayer, by decide⟩
    · exact open_ended fun _ _ hq => absurd hq hquery
  | _ => exact open_ended fun _ _ => trivial

end

/-! ## 2. What a stop keeps while it counts -/

namespace Keeper

open Program Announcement

variable {k : Keeper} {h : Handle} {last : Option Nat} {start due now n : Nat}
  {said all : List String} {s t : Moment × List Exchange}

/-- The server runs, the clock shows a time, and this was announced. -/
structure Standing (now : Nat) (said : List String) (s : Moment × List Exchange) : Prop where
  up : s.1.up = true
  now : s.1.now = now
  said : announced s.2 = said

/-- Whatever is asked for can be answered, if the clock holds the end of the delay. -/
def answerable (h : Handle) (last : Option Nat) (due : Nat) : Duty (Moment × List Exchange) where
  always _ := True
  asking _ r s := (∃ b t, (attended h last).recorded.answers r s b t) ∨ ¬ Instant.Holds last due

/-- A program that runs to its end, with a promise about it. -/
abbrev Counts (h : Handle) (last : Option Nat) (due : Nat) {α : Type} (p : Program α)
    (s : Moment × List Exchange) (post : α → Moment × List Exchange → Prop) : Prop :=
  (attended h last).recorded.Completes (answerable h last due) post p s

variable {α : Type} {post : α → Moment × List Exchange → Prop}

def standing (now : Nat) (said : List String) :
    Condition (attended h last).recorded (answerable h last due) where
  holds := Standing now said
  stable := by
    rintro s t ⟨⟨⟨-, hnow⟩, hup⟩, hhist⟩ hs
    exact ⟨hup.trans hs.up, hnow.trans hs.now, hhist ▸ hs.said⟩
  always _ _ := trivial

theorem counts_done {a : α} (hs : Standing now said s)
    (hpost : ∀ t, Standing now said t → post a t) : Counts h last due (.done a) s post :=
  .done (standing now said) hs hpost

/-- **One request of a countdown.**  Its answer comes after the time that it takes, and it is
announced if it is no query. -/
theorem counts_request {β : Type} {r : Request β} {f : β → Program α} (hs : Standing now said s)
    (hcan : ∀ t, Standing now said t → (answerable h last due).asking r t)
    (hnext : ∀ b u now', r.Passes last now b now' → r.Attended now b now' →
      Standing now' (said ++ r.told?.toList) u → Counts h last due (f b) u post) :
    Counts h last due (Program.request r >>= f) s post := by
  refine .request (standing now said) hs hcan ?_
  intro t b u ht ha
  obtain ⟨hup, hsaid, hpass, hattended⟩ := attended_answers ha
  have ht : Standing now said t := ht
  rw [ht.now] at hpass hattended
  refine hnext b u u.1.now hpass hattended ⟨hup.trans ht.up, rfl, ?_⟩
  rw [hsaid, ht.said]

theorem can_ask {β : Type} {r : Request β} {span : Nat} (hr : r.span? = some span)
    (hp : r.Patient) (t : Moment × List Exchange) (ht : Standing now said t) :
    (answerable h last due).asking r t := Or.inl (exists_attended hr hp ht.up)

/-- A request that takes no time and tells players nothing. -/
theorem counts_instant {β : Type} {r : Request β} {f : β → Program α}
    (hr : r.span? = some 0) (hp : r.Patient) (htold : r.told? = none) (hs : Standing now said s)
    (hnext : ∀ b u, r.Passes last now b now → r.Attended now b now → Standing now said u →
      Counts h last due (f b) u post) :
    Counts h last due (Program.request r >>= f) s post := by
  refine counts_request hs (can_ask hr hp) ?_
  intro b u now' hpass hattended hu
  have hbounds := hpass.bounds hr
  obtain rfl : now' = now := by omega
  rw [htold, Option.toList_none, List.append_nil] at hu
  exact hnext b u hpass hattended hu

theorem clock_counts {f : Instant → Program α} (hs : Standing now said s)
    (hnext : ∀ u, Standing now said u → Counts h last due (f (.ofMillis now)) u post) :
    Counts h last due (Program.request .clock >>= f) s post := by
  refine counts_instant rfl trivial rfl hs ?_
  intro i u hpass _ hu
  obtain ⟨rfl, -⟩ := hpass
  exact hnext u hu

theorem isRunning_counts {f : Bool → Program α} (hs : Standing now said s)
    (hnext : ∀ u, Standing now said u → Counts h last due (f true) u post) :
    Counts h last due (isRunning (some h) >>= f) s post := by
  refine counts_instant (r := .isRunning h) rfl trivial rfl hs ?_
  intro up u _ hup hu
  obtain rfl : up = true := hup
  exact hnext u hu

theorem announcement_ne_query (reason : String) (n : Nat) :
    announcement reason n ≠ queryCommand := by
  rw [← command_of_close (Duration.millis_ofMillis (1000 * n - 0)) (by decide) reason]
  exact command_ne_of_length (by decide) _ _

/-- Players are told at once. -/
theorem announce_counts {f : String → Program α} {reason : String} (hs : Standing now said s)
    (hnext : ∀ b u, Standing now (said ++ [announcement reason n]) u →
      Counts h last due (f b) u post) :
    Counts h last due (Program.request (.command (announcement reason n) .zero) >>= f) s post := by
  have hother := announcement_ne_query reason n
  refine counts_request hs (can_ask rfl fun hq => absurd hq hother) ?_
  intro b u now' hpass _ hu
  have hbounds : now ≤ now' ∧ now' ≤ now + 0 := hpass.bounds rfl
  obtain rfl : now' = now := by omega
  simp only [Request.told?, if_neg hother, Option.toList_some] at hu
  exact hnext b u hu

theorem sleep_counts {f : Unit → Program α} {ms : Nat} (hfit : Instant.Holds last (now + ms))
    (hs : Standing now said s)
    (hnext : ∀ u, Standing (now + ms) said u → Counts h last due (f ()) u post) :
    Counts h last due (Program.request (.sleep (.ofMillis ms)) >>= f) s post := by
  refine counts_request hs (can_ask rfl trivial) ?_
  intro _ u now' hpass _ hu
  have hspan := hpass.2.2
  rw [Duration.ceilMillis_ofMillis] at hspan
  have htold : (Request.sleep (.ofMillis ms)).told? = none := rfl
  rw [hspan hfit, htold, Option.toList_none, List.append_nil] at hu
  exact hnext u hu

/-! ## 3. One round -/

/-- **A query is answered within a second**, by a report that tells of a player. -/
theorem query_counts {f : Option Health → Program α} (hs : Standing now said s)
    (hnext : ∀ report u late, late < 1000 → 0 < report.players → Standing (now + late) said u →
      Counts h last due (f (some report)) u post) :
    Counts h last due (query (some h) >>= f) s post := by
  refine .bind (M := fun found u => ∃ report late, found = some report ∧ late < 1000 ∧
    0 < report.players ∧ Standing (now + late) said u) ?_ ?_
  · refine isRunning_counts hs ?_
    intro u hu
    refine counts_request hu (can_ask (r := .command queryCommand commandTimeout) rfl ?_)
      fun answer v now' hpass hattended hv => ?_
    · intro _
      decide
    · obtain ⟨hspan, report, hread, hplayers⟩ := hattended rfl
      have hle := hpass.le
      have hsame : Standing (now + (now' - now)) said v := by
        rw [Nat.add_sub_of_le hle]
        simpa [Request.told?] using hv
      exact counts_done hsame fun w hw => ⟨report, now' - now, hread, by omega, hplayers, hw⟩
  · rintro found u ⟨report, late, rfl, hlate, hplayers, hu⟩
    exact hnext report u late hlate hplayers hu

/-- What is still to be announced with the server up, and what has been, is all. -/
def Counting (due : Nat) (reason : String) (all : List String) (n : Nat)
    (s : Moment × List Exchange) : Prop :=
  1000 * n ≤ due ∧ ∃ said, Standing (due - 1000 * n) said s ∧
    said ++ (countdown n).map (announcement reason) = all

/-- **A round of the delay** for `n` seconds announces them, and ends when the greatest mark below
is left. -/
theorem holdBackRound_counts {reason : String} (hfit : Instant.Holds last due) (hn : 0 < n)
    (hs : Counting due reason all n s) :
    Counts h last due (holdBackRound (some h) reason (.ofMillis due)) s
      fun x t => x = .inl () ∧ ∃ next, next < n ∧ Counting due reason all next t := by
  obtain ⟨hle, said, hs, hall⟩ := hs
  refine clock_counts hs ?_
  intro t ht
  have hearly : Instant.ofMillis (due - 1000 * n) < .ofMillis due :=
    Instant.ofMillis_lt.mpr (by omega)
  rw [if_neg (by simp [hearly])]
  refine isRunning_counts ht ?_
  intro t ht
  refine query_counts ht ?_
  intro report t late hlate hplayers ht
  dsimp only
  rw [if_neg (Nat.ne_of_gt hplayers)]
  refine clock_counts ht ?_
  intro t ht
  have hleft : due - (due - 1000 * n + late) = 1000 * n - late := by omega
  simp only [Instant.since_ofMillis, hleft]
  have hsome : ¬ (Duration.ofMillis (1000 * n - late)).isZero = true := by
    rw [Duration.isZero_ofMillis]
    omega
  rw [if_neg hsome]
  obtain ⟨next, hnext, hwait⟩ := untilNext_of_close hn hlate
  rw [hwait, command_of_close (Duration.millis_ofMillis _) hlate]
  refine announce_counts ht ?_
  intro _ t ht
  have hlt := hnext.lt
  have hwake : due - 1000 * n + late + (1000 * n - late - 1000 * next) = due - 1000 * next := by
    omega
  refine sleep_counts (hfit.mono (by omega)) ht ?_
  intro u hu
  rw [hwake] at hu
  refine counts_done hu ?_
  intro v hv
  refine ⟨rfl, next, hlt, by omega, _, hv, ?_⟩
  rw [← hall, hnext.countdown_eq, List.map_cons, List.append_assoc, List.singleton_append]

/-- The last round finds that the delay is over. -/
theorem holdBackRound_over {reason : String} (hs : Standing due said s) :
    Counts h last due (holdBackRound (some h) reason (.ofMillis due)) s
      fun x t => x = .inr () ∧ Standing due said t := by
  refine clock_counts hs ?_
  intro t ht
  have hlate : ¬ Instant.ofMillis due < .ofMillis due := by
    rw [Instant.ofMillis_lt]
    omega
  rw [if_pos (by simp [hlate])]
  exact counts_done ht fun u hu => ⟨rfl, hu⟩

/-! ## 4. The whole delay -/

/-- **All rounds** announce what is to be announced, and end with the delay. -/
theorem rounds_count {reason : String} (hfit : Instant.Holds last due)
    (hs : Counting due reason all n s) :
    Counts h last due
      (Program.loop (fun () => holdBackRound (some h) reason (.ofMillis due)) ()) s
      fun _ t => Standing due all t := by
  refine .iterate (fun _ t => ∃ n, Counting due reason all n t) (fun _ t => due - t.1.now)
    (fun i t ht => ?_) ⟨n, hs⟩
  obtain ⟨n, hcount⟩ := ht
  have hle := hcount.1
  obtain ⟨said, hstand, hall⟩ := hcount.2
  rcases Nat.eq_zero_or_pos n with rfl | hn
  · rw [countdown, if_pos rfl, List.map_nil, List.append_nil] at hall
    subst hall
    refine (holdBackRound_over hstand).mono ?_
    intro x u hu
    obtain ⟨rfl, hu⟩ := hu
    exact counts_done hu fun v hv => hv
  · refine (holdBackRound_counts hfit hn hcount).mono ?_
    intro x u hu
    obtain ⟨rfl, next, hlt, hnext⟩ := hu
    refine ⟨⟨next, hnext⟩, ?_⟩
    obtain ⟨hle', said', hstand', -⟩ := hnext
    rw [hstand.now, hstand'.now]
    omega

/-- **The whole delay**, from its beginning. -/
theorem holdBack_counts {seconds : Nat} (hpos : 0 < seconds)
    (hd : k.shutdownDelay = .ofSecs seconds) (reason : String) (hs : Standing start [] s) :
    Counts h last (start + 1000 * seconds) (k.holdBack (some h) reason) s
      fun _ t => Standing (start + 1000 * seconds)
        ((countdown seconds).map (announcement reason)) t := by
  unfold holdBack
  rw [hd, Duration.ofSecs_eq_ofMillis]
  have hsome : ¬ (Duration.ofMillis (1000 * seconds)).isZero = true := by
    rw [Duration.isZero_ofMillis]
    omega
  rw [if_neg hsome]
  refine counts_instant (r := .isConnected) rfl trivial rfl hs ?_
  intro up t _ hup ht
  obtain rfl : up = true := hup
  refine counts_instant (r := .say .info .server _) rfl trivial rfl ht ?_
  intro _ t _ _ ht
  refine counts_request (r := .deadline (.ofMillis (1000 * seconds))) ht (fun t ht => ?_)
    fun deadline t now' hpass _ ht => ?_
  · by_cases hfit : Instant.Holds last (start + 1000 * seconds)
    · refine Or.inl ⟨_, (t.1, t.2 ++ [_]), ⟨⟨rfl, rfl, ?_, rfl⟩, trivial⟩, rfl⟩
      rwa [ht.now, Duration.ceilMillis_ofMillis]
    · exact Or.inr hfit
  · obtain ⟨rfl, hfit, hsame⟩ := hpass
    have ht : Standing start [] t := hsame ▸ ht
    rw [Duration.ceilMillis_ofMillis] at hfit
    rw [Instant.ofMillis_add]
    have hstart : start + 1000 * seconds - 1000 * seconds = start := by omega
    exact rounds_count hfit ⟨by omega, [], hstart.symm ▸ ht, rfl⟩

/-- **A countdown without drift.**  With players on the server, a stop is held back for exactly its
delay, and it announces the whole delay and each mark below it, once and in decreasing order.  It
does come to its end, on every clock that does not end before. -/
theorem countdown_without_drift (k : Keeper) {seconds : Nat} (hpos : 0 < seconds)
    (hd : k.shutdownDelay = .ofSecs seconds) (h : Handle) (reason : String) (start : Nat)
    (last : Option Nat) :
    (∀ {t : Moment × List Exchange}, (attended h last).recorded.Reaches
      (k.holdBack (some h) reason) (⟨true, start⟩, []) (.done ()) t →
      t.1.now = start + 1000 * seconds ∧
      announced t.2 = (seconds :: marksBelow seconds).map (announcement reason)) ∧
    (Instant.Holds last (start + 1000 * seconds) →
      (attended h last).recorded.Returns (k.holdBack (some h) reason) (⟨true, start⟩, [])) := by
  have hcount : Counts h last (start + 1000 * seconds) (k.holdBack (some h) reason)
      (⟨true, start⟩, []) fun _ t => Standing (start + 1000 * seconds)
        ((countdown seconds).map (announcement reason)) t :=
    holdBack_counts hpos hd reason ⟨rfl, rfl, rfl⟩
  refine ⟨fun {t} hr => ?_, fun hfit => ?_⟩
  · have hend := (hcount.upholds hr).2
    rw [countdown, if_neg (Nat.ne_of_gt hpos)] at hend
    exact ⟨hend.now, hend.said⟩
  · exact hcount.returns fun _ _ hask => hask.resolve_right (not_not_intro hfit)

/-- A console that takes a second less a millisecond for its first answer, and less for each one
after it. -/
def tardy : Player (attended ⟨0⟩ none) where
  answer
    | _, .clock, s => some (.ofMillis s.now, s)
    | _, .deadline d, s => some ((Instant.ofMillis s.now).add d, s)
    | _, .sleep d, s => some ((), { s with now := s.now + d.ceilMillis })
    | _, .say .., s => some ((), s)
    | _, .isRunning _, s => if s.up then some (true, s) else none
    | _, .isConnected, s => some (true, s)
    | _, .command text timeout, s =>
      if text = queryCommand then
        if timeout.ceilMillis = 10000 then
          some (onePlayer, { s with now := s.now + (999 - s.now / 60) })
        else none
      else some ("", s)
    | _, _, _ => none
  possible := by
    intro β r s s' b hb
    cases r <;> simp only [Option.some.injEq, Prod.mk.injEq, reduceCtorEq] at hb
    case clock =>
      obtain ⟨rfl, rfl⟩ := hb
      exact ⟨⟨rfl, rfl, rfl⟩, trivial⟩
    case deadline d =>
      obtain ⟨rfl, rfl⟩ := hb
      exact ⟨⟨rfl, rfl, Instant.holds_none _, rfl⟩, trivial⟩
    case sleep d =>
      obtain ⟨-, rfl⟩ := hb
      exact ⟨⟨rfl, Request.passes_sleep none s.now d⟩, trivial⟩
    case say =>
      obtain ⟨-, rfl⟩ := hb
      exact ⟨⟨rfl, rfl⟩, trivial⟩
    case isRunning g =>
      split at hb
      · rename_i hup
        cases hb
        exact ⟨⟨⟨fun _ => hup.symm, rfl⟩, rfl⟩, rfl⟩
      · exact nomatch hb
    case isConnected =>
      obtain ⟨rfl, rfl⟩ := hb
      exact ⟨⟨rfl, rfl⟩, rfl⟩
    case command text timeout =>
      split at hb
      · rename_i hquery
        split at hb
        · rename_i hten
          cases hb
          have htime : timeout.isZero = false := by
            rw [Bool.eq_false_iff]
            intro hzero
            have hnanos : timeout.nanos = 0 := beq_iff_eq.mp hzero
            simp [Duration.ceilMillis, hnanos] at hten
          refine ⟨⟨rfl, .in_time _ htime (Nat.le_add_right _ _) ?_⟩, fun _ => ⟨?_, ?_⟩⟩
          · show s.now + (999 - s.now / 60) ≤ s.now + timeout.ceilMillis
            omega
          · show s.now + (999 - s.now / 60) < s.now + 1000
            omega
          · exact ⟨⟨1, "1"⟩, read?_onePlayer, by decide⟩
        · exact nomatch hb
      · rename_i hother
        cases hb
        exact ⟨⟨rfl, .unsent⟩, fun hq => absurd hq hother⟩

/-- A keeper that holds a stop back for 62 seconds. -/
def unhurried : Keeper := ⟨⟨"server", [], "."⟩, .ofSecs 62, ⟨.ofSecs 2, 10⟩, ⟨.ofSecs 1, 2⟩⟩

/-- What is announced from 62 seconds on. -/
theorem countdown_without_drift_tardy : ∃ t : Moment × List Exchange,
    (attended ⟨0⟩ none).recorded.Reaches (unhurried.holdBack (some ⟨0⟩) "update") (⟨true, 0⟩, [])
      (.done ()) t ∧ t.1.now = 62000 ∧
    announced t.2 = [62, 60, 50, 40, 30, 20, 10, 9, 8, 7, 6, 5, 4, 3, 2, 1].map
      (announcement "update") ∧
    (attended ⟨0⟩ none).recorded.Returns (unhurried.holdBack (some ⟨0⟩) "update")
      (⟨true, 0⟩, []) := by
  let p := unhurried.holdBack (some ⟨0⟩) "update"
  have hp : (tardy.recorded.play 200 p (⟨true, 0⟩, [])).1 = .done () :=
    Program.eq_done_of_result? (by decide +kernel)
  have reaches := hp ▸ tardy.recorded.reaches 200 p (⟨true, 0⟩, [])
  have hpos : 0 < 62 := by decide
  have hd : unhurried.shutdownDelay = .ofSecs 62 := rfl
  have counted := countdown_without_drift unhurried hpos hd ⟨0⟩ "update" 0 none
  have hmarks : 62 :: marksBelow 62 = [62, 60, 50, 40, 30, 20, 10, 9, 8, 7, 6, 5, 4, 3, 2, 1] := by
    decide +kernel
  obtain ⟨hnow, hsaid⟩ := counted.1 reaches
  exact ⟨_, reaches, hnow, hmarks ▸ hsaid, counted.2 (Instant.holds_none _)⟩

end Keeper
end ServerWarden
