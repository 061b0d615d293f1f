/-
# The escalation of a stop

A stop has three resorts: it tells the server to quit, it interrupts it, and it ends it.  They come
in this order, each at most once, and each only while the server still runs after every resort
before it had its full wait.  The server may exit at any moment, and the console, an interrupt and
a termination may be answered in any way.

All of this is about the past of a moment, so the runs are those of recorded surroundings.  What is
known at a moment is always of one form, `After P past history`: the resorts so far are among
`past`, and each of them is followed by what `P` says.  `P` goes round once for each resort:

* `Keeper.Taken`: it comes just now;
* `Keeper.Underway`: a part of its wait is over;
* `Keeper.Waited`: its whole wait is over, unless the server was found gone;
* `Keeper.Outlasted`: after that the server was seen running, so the next resort may come.

The wait of a resort is the number of its sleeps.  An interrupt that could not be sent has none.
-/
import Mathlib.Data.List.Basic
import ServerWarden.Proofs.Control.Requests
import ServerWarden.Proofs.Lists

namespace ServerWarden

open Surroundings

universe u

/-! ## 1. One process that may exit at any moment -/

/-- **Surroundings in which only one process is fixed.**  The state tells whether it runs.  It may
exit at any moment, and does not come back.  Every other answer is possible at any time. -/
def mortal (h : Handle) : Surroundings Bool where
  answers
    | _, .isRunning g, up, seen, up' => (g = h → seen = up) ∧ up' = up
    | _, _, up, _, up' => up' = up
  moves _ up' := up' = false

theorem mortal_answers {h : Handle} {β : Type} {r : Request β} {s t : Bool × List Exchange}
    {b : β} (ha : (mortal h).recorded.answers r s b t) :
    t.1 = s.1 ∧ t.2 = s.2 ++ [⟨r, b⟩] := by
  refine ⟨?_, ha.2⟩
  cases r with
  | isRunning g => exact ha.1.2
  | _ => exact ha.1

/-! ## 2. What a history tells -/

/-- The ways to bring a server down. -/
inductive Resort where
  | quit
  | interrupt (h : Handle)
  | terminate (h : Handle)
  deriving DecidableEq, Repr

namespace Resort

/-- All resorts against a process, in the order in which they are taken. -/
def all (h : Handle) : List Resort := [.quit, .interrupt h, .terminate h]

theorem first_sublist (h : Handle) : [quit].Sublist (all h) :=
  List.sublist_append_left [quit] _

theorem milder_sublist (h : Handle) : [quit, interrupt h].Sublist (all h) :=
  List.sublist_append_left [quit, interrupt h] _

end Resort

/-- The resort that a request is. -/
def Request.resort? : ⦃β : Type⦄ → Request β → Option Resort
  | _, .command text _ => if text = Keeper.quitCommand then some .quit else none
  | _, .interrupt h => some (.interrupt h)
  | _, .terminate h => some (.terminate h)
  | _, _ => none

theorem Request.resort?_quit (timeout : Duration) :
    (Request.command Keeper.quitCommand timeout).resort? = some .quit := by
  simp [Request.resort?]

theorem Request.Observes.resort?_eq_none {β : Type} {r : Request β} (h : r.Observes) :
    r.resort? = none := by
  cases r with
  | command text timeout => exact if_neg h
  | _ => first | rfl | exact absurd h id

namespace Surroundings.Exchange

/-- What a look at a process found. -/
def look? (h : Handle) : Exchange → Option Bool
  | ⟨.isRunning g, up⟩ => if g = h then some up else none
  | _ => none

def slept? : Exchange → Option Duration
  | ⟨.sleep d, _⟩ => some d
  | _ => none

def isTalk : Exchange → Bool
  | ⟨.say .., _⟩ => true
  | _ => false

/-- An interrupt that could not be sent. -/
def Refused (x : Exchange) : Prop := ∃ h e, x = ⟨.interrupt h, .error e⟩

end Surroundings.Exchange

/-- The resorts of a history, in their order. -/
def resorts (history : List Exchange) : List Resort :=
  history.filterMap fun x => x.request.resort?

/-- The sleeps of a history, in their order. -/
def sleeps (history : List Exchange) : List Duration := history.filterMap Exchange.slept?

/-- What the last look at a process found. -/
def lastLook? (h : Handle) (history : List Exchange) : Option Bool :=
  (history.filterMap (Exchange.look? h)).getLast?

/-- The last exchange, apart from talk. -/
def lastExchange? (history : List Exchange) : Option Exchange :=
  (history.filter fun x => !x.isTalk).getLast?

@[simp] theorem resorts_append (a b : List Exchange) :
    resorts (a ++ b) = resorts a ++ resorts b := List.filterMap_append

@[simp] theorem sleeps_append (a b : List Exchange) :
    sleeps (a ++ b) = sleeps a ++ sleeps b := List.filterMap_append

theorem resorts_append_of_none {history : List Exchange} {x : Exchange}
    (hx : x.request.resort? = none) : resorts (history ++ [x]) = resorts history := by
  rw [resorts_append, show resorts [x] = [] by simp [resorts, hx], List.append_nil]

theorem resorts_append_of_some {history : List Exchange} {x : Exchange} {e : Resort}
    (hx : x.request.resort? = some e) : resorts (history ++ [x]) = resorts history ++ [e] := by
  rw [resorts_append, show resorts [x] = [e] by simp [resorts, hx]]

theorem lastLook?_append_of_none {h : Handle} {history : List Exchange} {x : Exchange}
    (hx : x.look? h = none) : lastLook? h (history ++ [x]) = lastLook? h history := by
  simp [lastLook?, List.filterMap_append, hx]

/-- What is known of the past: only some resorts were taken, in the given order, and each of them is
followed by what `P` says. -/
structure After (P : Exchange → List Exchange → Prop) (past : List Resort)
    (history : List Exchange) : Prop where
  resorts : (resorts history).Sublist past
  each : ∀ before x after, history = before ++ x :: after → x.request.resort? ≠ none → P x after

namespace After

variable {P Q : Exchange → List Exchange → Prop} {past past' : List Resort}
  {history : List Exchange}

theorem nil : After P past [] where
  resorts := List.nil_sublist past
  each before x after h := absurd h (by simp)

theorem mono (h : After P past history) (hPQ : ∀ x after, P x after → Q x after) :
    After Q past history := ⟨h.resorts, fun b x a he hx => hPQ x a (h.each b x a he hx)⟩

theorem wider (h : After P past history) (hp : past.Sublist past') : After P past' history :=
  ⟨h.resorts.trans hp, h.each⟩

/-- One more exchange. -/
theorem append_each {x : Exchange} (h : After P past history)
    (hold : ∀ y after, P y after → Q y (after ++ [x]))
    (hnew : x.request.resort? ≠ none → Q x []) (before : List Exchange) (y : Exchange)
    (after : List Exchange) (he : history ++ [x] = before ++ y :: after)
    (hy : y.request.resort? ≠ none) : Q y after := by
  rcases cut_of_concat he.symm with ⟨-, rfl, rfl⟩ | ⟨rest, rfl, hrest⟩
  · exact hnew hy
  · exact hold y rest (h.each before y rest hrest.symm hy)

theorem append_of_none {x : Exchange} (h : After P past history)
    (hx : x.request.resort? = none) (hold : ∀ y after, P y after → Q y (after ++ [x])) :
    After Q past (history ++ [x]) where
  resorts := by rw [resorts_append_of_none hx]; exact h.resorts
  each := h.append_each hold fun hne => absurd hx hne

theorem append_of_some {x : Exchange} {e : Resort} (h : After P past history)
    (hx : x.request.resort? = some e) (hold : ∀ y after, P y after → Q y (after ++ [x]))
    (hnew : Q x []) : After Q (past ++ [e]) (history ++ [x]) where
  resorts := by
    rw [resorts_append_of_some hx]
    exact h.resorts.append (List.Sublist.refl _)
  each := h.append_each hold fun _ => hnew

end After

namespace Keeper

variable {k : Keeper} {h : Handle} {past : List Resort} {history : List Exchange}

/-! ## 3. The wait of a resort -/

/-- The whole wait of a resort: as many sleeps as a stop makes. -/
def FullWait (k : Keeper) (x : Exchange) (wait : List Exchange) : Prop :=
  x.Refused ∨ sleeps wait = List.replicate k.stopPoll.attempts k.stopPoll.interval

/-- What follows a resort that had its whole wait. -/
def Waited (k : Keeper) (x : Exchange) (after : List Exchange) : Prop :=
  ∃ wait rest, after = wait ++ rest ∧ k.FullWait x wait

/-- What follows a resort that had its whole wait, and after which the server was seen running. -/
def Outlasted (k : Keeper) (h : Handle) (x : Exchange) (after : List Exchange) : Prop :=
  ∃ wait rest, after = wait ++ rest ∧ k.FullWait x wait ∧ ⟨.isRunning h, true⟩ ∈ rest

/-- What follows a resort that had its whole wait, or a number of its sleeps. -/
def Underway (k : Keeper) (slept : Nat) (x : Exchange) (after : List Exchange) : Prop :=
  k.Waited x after ∨ sleeps after = List.replicate slept k.stopPoll.interval

/-- What follows a resort that had its whole wait, or is taken just now. -/
def Taken (k : Keeper) (new x : Exchange) (after : List Exchange) : Prop :=
  k.Waited x after ∨ x = new ∧ after = []

theorem Waited.append {x : Exchange} {after : List Exchange} (hw : k.Waited x after)
    (y : Exchange) : k.Waited x (after ++ [y]) := by
  obtain ⟨wait, rest, rfl, hf⟩ := hw
  exact ⟨wait, rest ++ [y], List.append_assoc .., hf⟩

theorem Waited.outlasted {x : Exchange} {after : List Exchange} (hw : k.Waited x after) :
    k.Outlasted h x (after ++ [⟨.isRunning h, true⟩]) := by
  obtain ⟨wait, rest, rfl, hf⟩ := hw
  exact ⟨wait, rest ++ [_], List.append_assoc .., hf, List.mem_append_right _ List.mem_cons_self⟩

theorem Outlasted.waited {x : Exchange} {after : List Exchange} (ho : k.Outlasted h x after) :
    k.Waited x after := by
  obtain ⟨wait, rest, he, hf, -⟩ := ho
  exact ⟨wait, rest, he, hf⟩

theorem Outlasted.append {x : Exchange} {after : List Exchange} (ho : k.Outlasted h x after)
    (y : Exchange) : k.Outlasted h x (after ++ [y]) := by
  obtain ⟨wait, rest, rfl, hf, hl⟩ := ho
  exact ⟨wait, rest ++ [y], List.append_assoc .., hf, List.mem_append_left _ hl⟩

theorem Taken.underway {new x : Exchange} {after : List Exchange} (ht : k.Taken new x after) :
    k.Underway 0 x after := by
  rcases ht with hw | ⟨-, rfl⟩
  · exact Or.inl hw
  · exact Or.inr rfl

/-- There is nothing to wait for after a resort that could not be taken. -/
theorem Taken.waited {new x : Exchange} {after : List Exchange} (ht : k.Taken new x after)
    (hr : new.Refused) : k.Waited x after := by
  rcases ht with hw | ⟨rfl, rfl⟩
  · exact hw
  · exact ⟨[], [], rfl, Or.inl hr⟩

theorem Underway.waited {x : Exchange} {after : List Exchange}
    (hu : k.Underway k.stopPoll.attempts x after) : k.Waited x after := by
  rcases hu with hw | hs
  · exact hw
  · exact ⟨after, [], (List.append_nil after).symm, Or.inr hs⟩

theorem Underway.look {slept : Nat} {x : Exchange} {after : List Exchange} {g : Handle}
    {up : Bool} (hu : k.Underway slept x after) :
    k.Underway slept x (after ++ [⟨.isRunning g, up⟩]) := by
  rcases hu with hw | hs
  · exact Or.inl (hw.append _)
  · refine Or.inr ?_
    rw [sleeps_append, hs]
    exact List.append_nil _

theorem Underway.sleep {slept : Nat} {x : Exchange} {after : List Exchange} {u : Unit}
    (hu : k.Underway slept x after) :
    k.Underway (slept + 1) x (after ++ [⟨.sleep k.stopPoll.interval, u⟩]) := by
  rcases hu with hw | hs
  · exact Or.inl (hw.append _)
  · refine Or.inr ?_
    rw [sleeps_append, hs, List.replicate_succ']
    rfl

/-! ## 4. When a resort is due -/

/-- **A resort is due**: every resort before it was outlasted, the last look found the server
running, and the way is open for it.  The console is connected for the command to quit, and the
server can be interrupted for an interrupt; only talk lies between. -/
structure Due (k : Keeper) (h : Handle) (e : Resort) (history : List Exchange) : Prop where
  outlasted : ∀ before x after, history = before ++ x :: after → x.request.resort? ≠ none →
    k.Outlasted h x after
  running : lastLook? h history = some true
  connected : e = .quit → lastExchange? history = some ⟨.isConnected, true⟩
  interruptible : ∀ g, e = .interrupt g → lastExchange? history = some ⟨.canInterrupt g, true⟩

/-- The resorts come in their order, and each only when it is due. -/
def escalation (k : Keeper) (h : Handle) : Duty (Bool × List Exchange) where
  always s := (resorts s.2).Sublist (Resort.all h)
  asking _ r s := ∀ e, r.resort? = some e → k.Due h e s.2

/-- A program escalates as it should in every run from a state, and its result is as promised. -/
abbrev Escalates (k : Keeper) (h : Handle) {α : Type} (p : Program α) (s : Bool × List Exchange)
    (post : α → Bool × List Exchange → Prop) : Prop :=
  (mortal h).recorded.Upholds (k.escalation h) p s post

/-- Every resort so far had its whole wait, unless the server is gone. -/
def Settled (k : Keeper) (past : List Resort) (s : Bool × List Exchange) : Prop :=
  After (fun x after => s.1 = true → k.Waited x after) past s.2

/-- The server was just seen running, after all resorts so far. -/
structure Ready (k : Keeper) (h : Handle) (past : List Resort) (history : List Exchange) :
    Prop extends After (k.Outlasted h) past history where
  running : lastLook? h history = some true

/-- The server was just seen running, and then a question was answered. -/
structure Aimed (k : Keeper) (h : Handle) (past : List Resort) (guard : Exchange)
    (history : List Exchange) : Prop extends k.Ready h past history where
  last : lastExchange? history = some guard

theorem Settled.append {s : Bool × List Exchange} {x : Exchange} (hs : k.Settled past s)
    (hx : x.request.resort? = none) : k.Settled past (s.1, s.2 ++ [x]) :=
  After.append_of_none hs hx fun _ _ hw hup => (hw hup).append x

theorem Settled.wider {past' : List Resort} {s : Bool × List Exchange} (hs : k.Settled past s)
    (hp : past.Sublist past') : k.Settled past' s := After.wider hs hp

theorem Settled.of_gone {P : Exchange → List Exchange → Prop} {s : Bool × List Exchange}
    (hs : After P past s.2) (hg : s.1 = false) : k.Settled past s :=
  hs.mono fun _ _ _ hup => absurd (hg.symm.trans hup) (by decide)

theorem Ready.settled {s : Bool × List Exchange} (hr : k.Ready h past s.2) :
    k.Settled past s := hr.toAfter.mono fun _ _ ho _ => ho.waited

theorem Ready.append {x : Exchange} (hr : k.Ready h past history)
    (hx : x.request.resort? = none) (hl : x.look? h = none) :
    k.Ready h past (history ++ [x]) where
  toAfter := hr.toAfter.append_of_none hx fun _ _ ho => ho.append x
  running := (lastLook?_append_of_none hl).trans hr.running

theorem Ready.taken {x : Exchange} {e : Resort} (hr : k.Ready h past history)
    (hx : x.request.resort? = some e) :
    After (k.Taken x) (past ++ [e]) (history ++ [x]) :=
  hr.toAfter.append_of_some hx (fun _ _ ho => Or.inl (ho.waited.append x)) (Or.inr ⟨rfl, rfl⟩)

theorem Ready.aim {x : Exchange} (hr : k.Ready h past history) (hx : x.request.resort? = none)
    (hl : x.look? h = none) (ht : x.isTalk = false) :
    k.Aimed h past x (history ++ [x]) where
  toReady := hr.append hx hl
  last := by simp [lastExchange?, List.filter_append, ht]

theorem Aimed.talk {guard x : Exchange} (ha : k.Aimed h past guard history)
    (hx : x.request.resort? = none) (hl : x.look? h = none) (ht : x.isTalk = true) :
    k.Aimed h past guard (history ++ [x]) where
  toReady := ha.toReady.append hx hl
  last := by simpa [lastExchange?, List.filter_append, ht] using ha.last

/-- What a look shows at a server whose resorts are settled. -/
structure Looked (k : Keeper) (h : Handle) (past : List Resort) (up : Bool)
    (s : Bool × List Exchange) : Prop where
  settled : k.Settled past s
  ready : up = true → k.Ready h past s.2
  gone : up = false → s.1 = false
  last : ∃ before, s.2 = before ++ [⟨.isRunning h, up⟩]

/-! ## 5. The parts of a stop -/

/-- A condition on the past alone. -/
def recalled (P : List Exchange → Prop)
    (hP : ∀ history, P history → (resorts history).Sublist (Resort.all h)) :
    Condition (mortal h).recorded (k.escalation h) where
  holds s := P s.2
  stable := by
    rintro s t ⟨-, ht⟩ hs
    exact ht.symm ▸ hs
  always s hs := hP s.2 hs

def settling (past : List Resort) (hp : past.Sublist (Resort.all h)) :
    Condition (mortal h).recorded (k.escalation h) where
  holds := k.Settled past
  stable := by
    rintro s t ⟨hm, ht⟩ hs
    refine Settled.of_gone (P := fun x after => s.1 = true → k.Waited x after) ?_ hm
    rw [ht]
    exact hs
  always _ hs := hs.resorts.trans hp

/-- A request of which the past alone tells what holds before and after it. -/
theorem request_upholds {β : Type} {r : Request β} {P : List Exchange → Prop}
    {Q : β → List Exchange → Prop} {s : Bool × List Exchange}
    (hP : ∀ history, P history → (resorts history).Sublist (Resort.all h))
    (hQ : ∀ b history, Q b history → (resorts history).Sublist (Resort.all h))
    (hask : ∀ history e, P history → r.resort? = some e → k.Due h e history)
    (hnext : ∀ history b, P history → Q b (history ++ [⟨r, b⟩])) (hs : P s.2) :
    k.Escalates h (Program.request r) s fun b t => Q b t.2 := by
  refine .ask (recalled P hP) hs (fun t ht e he => hask t.2 e ht he) fun t b u ht ha => ?_
  obtain ⟨-, hhist⟩ := mortal_answers ha
  have hu : Q b u.2 := hhist ▸ hnext t.2 b ht
  exact .done (recalled (Q b) (hQ b)) hu fun _ hv => hv

theorem upholds_of_observes {α : Type} {C : Condition (mortal h).recorded (k.escalation h)}
    {p : Program α} {s : Bool × List Exchange} (hp : p.Asks Request.Observes)
    (keep : ∀ x t, x.request.Observes → C.holds t → C.holds (t.1, t.2 ++ [x]))
    (hs : C.holds s) : k.Escalates h p s fun _ t => C.holds t := by
  refine .of_asks C hp (fun r t hr ht => ⟨fun e he => ?_, fun b t' ha => ?_⟩) hs
  · exact absurd (hr.resort?_eq_none.symm.trans he) (by simp)
  · obtain ⟨hup, hhist⟩ := mortal_answers ha
    have ht' : t' = (t.1, t.2 ++ [⟨r, b⟩]) := Prod.ext hup hhist
    exact ht' ▸ keep ⟨r, b⟩ t hr ht

/-- Talk, looks and waits leave settled what is settled. -/
theorem settled_upholds {α : Type} {p : Program α} {s : Bool × List Exchange}
    (hp : p.Asks Request.Observes) (hall : past.Sublist (Resort.all h)) (hs : k.Settled past s) :
    k.Escalates h p s fun _ t => k.Settled past t :=
  upholds_of_observes (C := settling past hall) hp
    (fun _ _ hx ht => ht.append hx.resort?_eq_none) hs

theorem look_upholds {s : Bool × List Exchange} (hall : past.Sublist (Resort.all h))
    (hs : k.Settled past s) :
    k.Escalates h (Program.request (.isRunning h)) s fun up t => k.Looked h past up t := by
  refine .ask (settling past hall) hs (fun _ _ e he => nomatch he) fun t up u ht ha => ?_
  obtain ⟨hup, hhist⟩ := mortal_answers ha
  have hseen : up = t.1 := ha.1.1 rfl
  have hsettled : k.Settled past u := by
    rw [show u = (t.1, t.2 ++ [⟨.isRunning h, up⟩]) from Prod.ext hup hhist]
    exact ht.append rfl
  cases up with
  | true =>
    have hready : k.Ready h past u.2 := by
      rw [hhist]
      refine ⟨After.append_of_none ht rfl fun x after hw => ?_, ?_⟩
      · exact (hw hseen.symm).outlasted
      · simp [lastLook?, List.filterMap_append, Exchange.look?]
    refine .done (recalled (fun past' => k.Ready h past past' ∧
      ∃ before, past' = before ++ [⟨.isRunning h, true⟩]) fun _ hr => hr.1.resorts.trans hall)
      ⟨hready, t.2, hhist⟩ fun v hv => ?_
    exact ⟨hv.1.settled, fun _ => hv.1, (nomatch ·), hv.2⟩
  | false =>
    let gone : Condition (mortal h).recorded (k.escalation h) := {
      holds := fun v => k.Settled past v ∧ v.1 = false ∧
        ∃ before, v.2 = before ++ [⟨.isRunning h, false⟩]
      stable := by
        rintro v w hm ⟨hv, -, hb⟩
        exact ⟨(settling past hall).stable hm hv, hm.1, hm.2.symm ▸ hb⟩
      always := fun _ hv => hv.1.resorts.trans hall }
    refine .done gone ⟨hsettled, hup.trans hseen.symm, t.2, hhist⟩ fun v hv => ?_
    exact ⟨hv.1, (nomatch ·), fun _ => hv.2.1, hv.2.2⟩

/-- **The wait of a resort**, look by look. -/
theorem awaitExit_upholds (hall : past.Sublist (Resort.all h)) (left : Nat) {slept : Nat}
    {s : Bool × List Exchange} (hn : slept + left = k.stopPoll.attempts)
    (hs : After (k.Underway slept) past s.2) :
    k.Escalates h (awaitExit (some h) k.stopPoll.interval left) s fun _ t => k.Settled past t := by
  let C (slept : Nat) : Condition (mortal h).recorded (k.escalation h) :=
    recalled (After (k.Underway slept) past) fun _ ht => ht.resorts.trans hall
  induction left generalizing slept s with
  | zero =>
    obtain rfl : slept = k.stopPoll.attempts := hn
    refine .request (C _) hs (fun _ _ e he => nomatch he) fun t up u ht ha => ?_
    obtain ⟨-, hhist⟩ := mortal_answers ha
    have hu : k.Settled past u := by
      show After _ past u.2
      rw [hhist]
      exact After.append_of_none ht rfl fun _ _ hw _ => hw.waited.append _
    exact .done (settling past hall) hu fun _ hv => hv
  | succ left ih =>
    refine .request (C _) hs (fun _ _ e he => nomatch he) fun t up u ht ha => ?_
    obtain ⟨hup, hhist⟩ := mortal_answers ha
    have hseen : up = t.1 := ha.1.1 rfl
    have hu : After (k.Underway slept) past u.2 := by
      rw [hhist]
      exact After.append_of_none ht rfl fun _ _ hw => hw.look
    cases up with
    | false =>
      have hgone : k.Settled past u := .of_gone hu (hup.trans hseen.symm)
      exact .done (settling past hall) hgone fun _ hv => hv
    | true =>
      refine .request (C _) hu (fun _ _ e he => nomatch he) fun t' z u' ht' ha' => ?_
      obtain ⟨-, hhist'⟩ := mortal_answers ha'
      have hn' : slept + 1 + left = k.stopPoll.attempts := by omega
      refine ih hn' ?_
      rw [hhist']
      exact After.append_of_none ht' rfl fun _ _ hw => hw.sleep

/-- A resort that was just taken, its wait, and the word about its success. -/
theorem wait_upholds {x : Exchange} {text : String} {s : Bool × List Exchange}
    (hall : past.Sublist (Resort.all h)) (hs : After (k.Taken x) past s.2) :
    k.Escalates h
      (do if ← awaitExit (some h) k.stopPoll.interval k.stopPoll.attempts then info text) s
      fun _ t => k.Settled past t := by
  have hu : After (k.Underway 0) past s.2 := hs.mono fun _ _ => Taken.underway
  refine .bind (awaitExit_upholds hall _ (Nat.zero_add _) hu) fun exited t ht => ?_
  cases exited with
  | true => exact settled_upholds (Program.asks_request.2 trivial) hall ht
  | false => exact .done (settling past hall) ht fun _ hv => hv

/-- Every way in which a resort may be passed over. -/
theorem passed_upholds {α : Type} (past : List Resort) {e : Resort} {p : Program α}
    {s : Bool × List Exchange} (hp : p.Asks Request.Observes)
    (hall : (past ++ [e]).Sublist (Resort.all h)) (hs : k.Settled past s) :
    k.Escalates h p s fun _ t => k.Settled (past ++ [e]) t :=
  settled_upholds hp hall (hs.wider (List.sublist_append_left past [e]))

/-- **A guard**: a question whose answer decides whether a resort is taken. -/
theorem guard_upholds {r : Request Bool} {s : Bool × List Exchange}
    (hr : ∀ b, r.resort? = none ∧ (⟨r, b⟩ : Exchange).look? h = none ∧
      (⟨r, b⟩ : Exchange).isTalk = false)
    (hall : past.Sublist (Resort.all h)) (hs : k.Ready h past s.2) :
    k.Escalates h (Program.request r) s fun b t => k.Aimed h past ⟨r, b⟩ t.2 := by
  refine request_upholds (P := k.Ready h past) (Q := fun b => k.Aimed h past ⟨r, b⟩)
    (fun _ ht => ht.resorts.trans hall) (fun _ _ ht => ht.resorts.trans hall)
    (fun _ e _ he => ?_) (fun _ b ht => ?_) hs
  · exact absurd ((hr true).1.symm.trans he) (by simp)
  · exact ht.aim (hr b).1 (hr b).2.1 (hr b).2.2

/-- Talk leaves the way to a resort open. -/
theorem aimed_say_upholds {guard : Exchange} {level : Log.Level} {speaker : Log.Speaker}
    {text : String} {s : Bool × List Exchange} (hall : past.Sublist (Resort.all h))
    (hs : k.Aimed h past guard s.2) :
    k.Escalates h (Program.say level speaker text) s fun _ t => k.Aimed h past guard t.2 := by
  have hsub : ∀ history, k.Aimed h past guard history →
      (resorts history).Sublist (Resort.all h) := fun _ ht => ht.resorts.trans hall
  exact request_upholds (Q := fun _ => k.Aimed h past guard) hsub (fun _ => hsub)
    (fun _ _ _ he => nomatch he) (fun _ _ ht => ht.talk rfl rfl rfl) hs

/-- **A resort that is taken** when its way is open. -/
theorem take_upholds {β : Type} {r : Request β} {e : Resort} {guard : Exchange}
    {s : Bool × List Exchange} (hall : (past ++ [e]).Sublist (Resort.all h))
    (he : r.resort? = some e)
    (hdue : ∀ history, k.Aimed h past guard history → k.Due h e history)
    (hs : k.Aimed h past guard s.2) :
    k.Escalates h (Program.request r) s
      fun b t => After (k.Taken ⟨r, b⟩) (past ++ [e]) t.2 := by
  have hpast : past.Sublist (Resort.all h) := (List.sublist_append_left past [e]).trans hall
  refine request_upholds (P := k.Aimed h past guard)
    (Q := fun b => After (k.Taken ⟨r, b⟩) (past ++ [e]))
    (fun _ ht => ht.resorts.trans hpast) (fun _ _ ht => ht.resorts.trans hall)
    (fun history e' ht he' => ?_) (fun _ _ ht => ht.taken he) hs
  obtain rfl : e = e' := Option.some.inj (he.symm.trans he')
  exact hdue history ht

/-- **The first resort.** -/
theorem askToQuit_upholds {s : Bool × List Exchange} (hs : k.Settled [] s) :
    k.Escalates h (k.askToQuit h) s fun _ t => k.Settled [.quit] t := by
  have hnone : [].Sublist (Resort.all h) := List.nil_sublist _
  have hall : [Resort.quit].Sublist (Resort.all h) := Resort.first_sublist h
  refine .bind (look_upholds hnone hs) fun up t ht => ?_
  cases up with
  | false => exact passed_upholds [] (Program.asks_pure ()) hall ht.settled
  | true =>
    refine .bind (guard_upholds (fun _ => ⟨rfl, rfl, rfl⟩) hnone (ht.ready rfl))
      fun connected t ht => ?_
    cases connected with
    | false =>
      exact passed_upholds [] (Program.asks_request.2 trivial) hall ht.settled
    | true =>
      refine .bind (aimed_say_upholds hnone ht) fun _ t ht => ?_
      have hdue : ∀ history, k.Aimed h [] ⟨.isConnected, true⟩ history → k.Due h .quit history :=
        fun history hd => ⟨hd.each, hd.running, fun _ => hd.last, nofun⟩
      refine .bind (take_upholds hall (Request.resort?_quit _) hdue ht) fun _ t ht => ?_
      exact wait_upholds hall ht

/-- **The second resort.**  If it is refused there is nothing to wait for. -/
theorem interrupt_upholds {s : Bool × List Exchange} (hs : k.Settled [.quit] s) :
    k.Escalates h (k.interrupt h) s fun _ t => k.Settled [.quit, .interrupt h] t := by
  have hquit : [Resort.quit].Sublist (Resort.all h) := Resort.first_sublist h
  have hall : List.Sublist [.quit, .interrupt h] (Resort.all h) := Resort.milder_sublist h
  refine .bind (look_upholds hquit hs) fun up t ht => ?_
  cases up with
  | false => exact passed_upholds [.quit] (Program.asks_pure ()) hall ht.settled
  | true =>
    refine .bind (guard_upholds (fun _ => ⟨rfl, rfl, rfl⟩) hquit (ht.ready rfl))
      fun possible t ht => ?_
    cases possible with
    | false => exact passed_upholds [.quit] (Program.asks_pure ()) hall ht.settled
    | true =>
      refine .bind (aimed_say_upholds hquit ht) fun _ t ht => ?_
      have hdue : ∀ history, k.Aimed h [.quit] ⟨.canInterrupt h, true⟩ history →
          k.Due h (.interrupt h) history := by
        refine fun history hd => ⟨hd.each, hd.running, nofun, fun g hg => ?_⟩
        obtain rfl : h = g := Resort.interrupt.inj hg
        exact hd.last
      refine .bind (take_upholds hall rfl hdue ht) fun result t ht => ?_
      cases result with
      | ok u => exact wait_upholds hall ht
      | error e =>
        have ht' : k.Settled [.quit, .interrupt h] t :=
          ht.mono fun _ _ hw _ => hw.waited ⟨h, e, rfl⟩
        exact settled_upholds (Program.asks_request.2 trivial) hall ht'

/-! ## 6. The last resort and the end -/

/-- The history since a look at the server: resorts before it are among `past`, and those after it
are known. -/
structure Since (h : Handle) (past : List Resort) (up : Bool) (later : List Resort)
    (history : List Exchange) : Prop where
  split : ∃ before after, history = before ++ ⟨.isRunning h, up⟩ :: after ∧
    (resorts before).Sublist past ∧ resorts after = later

/-- **A stop is over.**  A last look, after all other resorts, found the server running, and then it
was ended; or it found it gone, and then it was not. -/
def Over (h : Handle) (s : Bool × List Exchange) : Prop :=
  ∃ up, Since h [.quit, .interrupt h] up (if up then [.terminate h] else []) s.2 ∧
    (up = false → s.1 = false)

theorem Looked.since {up : Bool} {s : Bool × List Exchange} (hl : k.Looked h past up s) :
    Since h past up [] s.2 := by
  obtain ⟨before, he⟩ := hl.last
  refine ⟨before, [], he, ?_, rfl⟩
  have hr := hl.settled.resorts
  rwa [he, resorts_append_of_none rfl] at hr

theorem Since.append {up : Bool} {later later' : List Resort} {x : Exchange}
    (hs : Since h past up later history) (hl : later ++ resorts [x] = later') :
    Since h past up later' (history ++ [x]) := by
  obtain ⟨before, after, rfl, hb, rfl⟩ := hs.split
  exact ⟨before, after ++ [x], List.append_assoc .., hb, (resorts_append after [x]).trans hl⟩

theorem Since.resorts {up : Bool} {later : List Resort} (hs : Since h past up later history) :
    (resorts history).Sublist (past ++ later) := by
  obtain ⟨before, after, rfl, hb, rfl⟩ := hs.split
  have hr : ServerWarden.resorts (before ++ ⟨.isRunning h, up⟩ :: after)
      = ServerWarden.resorts before ++ ServerWarden.resorts after := resorts_append _ _
  rw [hr]
  exact hb.append (List.Sublist.refl _)

theorem Over.resorts {s : Bool × List Exchange} (ho : Over h s) :
    (resorts s.2).Sublist (Resort.all h) := by
  obtain ⟨up, hs, -⟩ := ho
  refine hs.resorts.trans ?_
  cases up with
  | true => exact List.Sublist.refl _
  | false => exact Resort.milder_sublist h

theorem Over.append {s : Bool × List Exchange} {x : Exchange} (ho : Over h s)
    (hx : x.request.resort? = none) : Over h (s.1, s.2 ++ [x]) := by
  obtain ⟨up, hs, hg⟩ := ho
  have hnone : ServerWarden.resorts [x] = [] := by simp [ServerWarden.resorts, hx]
  exact ⟨up, hs.append (by rw [hnone, List.append_nil]), hg⟩

def finishing (k : Keeper) (h : Handle) : Condition (mortal h).recorded (k.escalation h) where
  holds := Over h
  stable := by
    rintro s t ⟨hm, ht⟩ ⟨up, hs, -⟩
    exact ⟨up, ht.symm ▸ hs, fun _ => hm⟩
  always _ ho := ho.resorts

theorem over_upholds {α : Type} {p : Program α} {s : Bool × List Exchange}
    (hp : p.Asks Request.Observes) (hs : Over h s) :
    k.Escalates h p s fun _ t => Over h t :=
  upholds_of_observes (C := finishing k h) hp (fun _ _ hx ht => ht.append hx.resort?_eq_none) hs

/-- **The last resort** comes exactly if the last look found the server running. -/
theorem terminate_upholds {s : Bool × List Exchange}
    (hs : k.Settled [.quit, .interrupt h] s) :
    k.Escalates h (terminate h) s fun _ t => Over h t := by
  have hall : List.Sublist [.quit, .interrupt h] (Resort.all h) := Resort.milder_sublist h
  refine .bind (look_upholds hall hs) fun up t ht => ?_
  cases up with
  | false =>
    have ho : Over h t := ⟨false, ht.since, fun _ => ht.gone rfl⟩
    exact .done (finishing k h) ho fun _ hv => hv
  | true =>
    let P (history : List Exchange) : Prop :=
      k.Ready h [.quit, .interrupt h] history ∧ Since h [.quit, .interrupt h] true [] history
    let Q : Except Fault Unit → List Exchange → Prop :=
      fun _ => Since h [.quit, .interrupt h] true [.terminate h]
    have hP : ∀ history, P history → (resorts history).Sublist (Resort.all h) :=
      fun _ hv => hv.1.resorts.trans hall
    refine .bind (request_upholds (P := P) (Q := fun _ => P) hP (fun _ => hP)
      (fun _ _ _ he => nomatch he) (fun _ _ hv => ⟨hv.1.append rfl rfl, hv.2.append rfl⟩)
      ⟨ht.ready rfl, ht.since⟩) fun _ t ht => ?_
    refine .bind (request_upholds (P := P) (Q := Q) hP (fun _ _ hv => hv.resorts)
      (fun history e hv he => ?_) (fun _ _ hv => hv.2.append rfl) ht) fun result t ht => ?_
    · obtain rfl : .terminate h = e := Option.some.inj he
      exact ⟨hv.1.each, hv.1.running, nofun, nofun⟩
    · have ho : Over h t := ⟨true, ht, nofun⟩
      cases result with
      | ok u => exact .done (finishing k h) ho fun _ hv => hv
      | error e =>
        refine over_upholds (Program.asks_request_bind.2 ⟨trivial, fun id => ?_⟩) ho
        exact Program.asks_request.2 trivial

theorem release_upholds {s : Bool × List Exchange} (hs : Over h s) :
    k.Escalates h (Program.request (.release h)) s
      fun _ t => Over h t ∧ t.2.getLast? = some ⟨.release h, ()⟩ := by
  refine .ask (finishing k h) hs (fun _ _ e he => nomatch he) fun t u t' ht ha => ?_
  obtain ⟨hup, hhist⟩ := mortal_answers ha
  have ho : Over h t' := by
    rw [show t' = (t.1, t.2 ++ [⟨.release h, u⟩]) from Prod.ext hup hhist]
    exact ht.append rfl
  let C : Condition (mortal h).recorded (k.escalation h) := {
    holds := fun v => Over h v ∧ v.2.getLast? = some ⟨.release h, ()⟩
    stable := by
      rintro v w hm ⟨hv, hl⟩
      exact ⟨(finishing k h).stable hm hv, hm.2.symm ▸ hl⟩
    always := fun _ hv => hv.1.resorts }
  refine .done C ⟨ho, ?_⟩ fun _ hv => hv
  rw [hhist, List.getLast?_append]
  rfl

/-- **A whole stop.** -/
theorem stop_escalation (k : Keeper) (h : Handle) (reason : String) (up : Bool) :
    k.Escalates h (k.stop (some h) reason) (up, [])
      fun _ t => Over h t ∧ t.2.getLast? = some ⟨.release h, ()⟩ := by
  have hnone : [].Sublist (Resort.all h) := List.nil_sublist _
  have hs : k.Settled [] (up, []) := After.nil
  refine .bind (look_upholds hnone hs) fun up t ht => ?_
  cases up with
  | false =>
    have ho : Over h t := by
      obtain ⟨before, after, he, hb, ha⟩ := ht.since.split
      exact ⟨false, ⟨before, after, he, hb.trans (List.nil_sublist _), ha⟩, fun _ => ht.gone rfl⟩
    exact release_upholds ho
  | true =>
    refine .bind (settled_upholds (Program.asks_request.2 trivial) hnone ht.settled)
      fun _ t ht => ?_
    refine .bind (settled_upholds (k.holdBack_observes _ _) hnone ht) fun _ t ht => ?_
    refine .bind (askToQuit_upholds ht) fun _ t ht => ?_
    refine .bind (interrupt_upholds ht) fun _ t ht => ?_
    refine .bind (terminate_upholds ht) fun _ t ht => ?_
    refine .bind (over_upholds (reportExit_observes h) ht) fun _ t ht => ?_
    exact release_upholds ht

/-- No resort is taken. -/
def peace : Duty (Bool × List Exchange) where
  always s := resorts s.2 = []
  asking _ r _ := r.resort? = none

/-- A server that does not run is left in peace. -/
theorem stop_peace (k : Keeper) (h : Handle) (reason : String) :
    (mortal h).recorded.Upholds peace (k.stop (some h) reason) (false, []) fun _ _ => True := by
  let C : Condition (mortal h).recorded peace := {
    holds := fun s => s.1 = false ∧ resorts s.2 = []
    stable := by
      rintro s t ⟨hm, ht⟩ ⟨-, hr⟩
      exact ⟨hm, ht.symm ▸ hr⟩
    always := fun _ hs => hs.2 }
  refine .request C ⟨rfl, rfl⟩ (fun _ _ => rfl) fun s up t hs ha => ?_
  obtain ⟨hup, hhist⟩ := mortal_answers ha
  have hseen : up = s.1 := ha.1.1 rfl
  obtain rfl : up = false := hseen.trans hs.1
  have ht : C.holds t := by
    refine ⟨hup.trans hs.1, ?_⟩
    rw [hhist, resorts_append_of_none rfl]
    exact hs.2
  refine .ask C ht (fun _ _ => rfl) fun t u t' ht ha => ?_
  obtain ⟨hup, hhist⟩ := mortal_answers ha
  have ht' : C.holds t' := by
    refine ⟨hup.trans ht.1, ?_⟩
    rw [hhist, resorts_append_of_none rfl]
    exact ht.2
  exact .done C ht' fun _ _ => trivial

/-! ## 7. The keeper afterwards -/

/-- What a keeper may be told. -/
inductive Order where
  | start
  | stop (reason : String)
  | look
  | query

inductive Reply where
  | started (up : Bool)
  | stopped
  | running (up : Bool)
  | report (health : Option Health)
  deriving DecidableEq

/-- A reply that tells of no server. -/
def Reply.Idle : Reply → Prop
  | .started _ => False
  | .stopped => True
  | .running up => up = false
  | .report health => health = none

/-- Follows an order.  Answers the process that is kept now as well. -/
def obey (k : Keeper) (held : Option Handle) : Order → Program (Reply × Option Handle)
  | .start => do
    let (up, held) ← k.start held
    return (.started up, held)
  | .stop reason => do
    k.stop held reason
    return (.stopped, none)
  | .look => do return (.running (← isRunning held), held)
  | .query => do return (.report (← query held), held)

/-- Follows one order after another. -/
def obeyAll (k : Keeper) : Option Handle → List Order → Program (List Reply × Option Handle)
  | held, [] => return ([], held)
  | held, order :: orders => do
    let (reply, held) ← k.obey held order
    let (replies, held) ← k.obeyAll held orders
    return (reply :: replies, held)

/-- A keeper without a process stays without one, and knows it, until it is told to start one. -/
theorem obeyAll_none (k : Keeper) (orders : List Order) (hs : ∀ o ∈ orders, o ≠ .start) :
    ∃ replies, k.obeyAll none orders = pure (replies, none) ∧ ∀ r ∈ replies, r.Idle := by
  induction orders with
  | nil => exact ⟨[], rfl, nofun⟩
  | cons order orders ih =>
    obtain ⟨hne, hs⟩ := List.forall_mem_cons.mp hs
    obtain ⟨replies, he, hi⟩ := ih hs
    have hobey : ∃ reply : Reply, k.obey none order = pure (reply, none) ∧ reply.Idle := by
      cases order with
      | start => exact absurd rfl hne
      | stop reason => exact ⟨.stopped, rfl, trivial⟩
      | look => exact ⟨.running false, rfl, rfl⟩
      | query => exact ⟨.report none, rfl, rfl⟩
    obtain ⟨reply, hr, hidle⟩ := hobey
    refine ⟨reply :: replies, ?_, List.forall_mem_cons.mpr ⟨hidle, hi⟩⟩
    simp only [obeyAll, hr, he, pure_bind]

/-- **After a stop** no process is kept, and none is told of, until the next start. -/
theorem stop_then_upholds {σ : Type u} (E : Surroundings σ) (k : Keeper)
    (held : Option Handle) (reason : String) {later : List Order}
    (hl : ∀ o ∈ later, o ≠ .start) (s : σ) :
    E.Upholds .free (k.obeyAll held (.stop reason :: later)) s
      fun out _ => out.2 = none ∧ ∀ r ∈ out.1, r.Idle := by
  obtain ⟨replies, he, hi⟩ := obeyAll_none k later hl
  refine .bind (M := fun r _ => r = (.stopped, none)) ?_ ?_
  · exact .bind (.free (k.stop held reason) s) fun _ t _ => .done (.any E) trivial fun _ _ => rfl
  · rintro _ t rfl
    simp only [he, pure_bind]
    exact .done (.any E) trivial fun _ _ => ⟨rfl, List.forall_mem_cons.mpr ⟨trivial, hi⟩⟩

/-- **The escalation of a stop**, in every run of one: the resorts so far come in their order, each
at most once; each is due when it is taken; and when the stop is over, the last resort was taken
exactly if the server still ran, and the process was given up as the last thing.  A server that did
not run at the start is left in peace.  After a stop the keeper has no process, and says so, until
it is told to start one. -/
theorem stop_escalates (k : Keeper) (h : Handle) (reason : String) :
    (∀ {up : Bool} {q : Program Unit} {s : Bool × List Exchange},
      (mortal h).recorded.Reaches (k.stop (some h) reason) (up, []) q s →
      (resorts s.2).Sublist [.quit, .interrupt h, .terminate h] ∧
      (∀ {β : Type} {r : Request β} {next : β → Program Unit} {e : Resort},
        q = .ask r next → r.resort? = some e → k.Due h e s.2) ∧
      (∀ u, q = .done u → Over h s ∧ s.2.getLast? = some ⟨.release h, ()⟩) ∧
      (up = false → resorts s.2 = [])) ∧
    ∀ {σ : Type u} (E : Surroundings σ) {held : Option Handle} {later : List Order} {s t : σ}
      {out : List Reply × Option Handle}, (∀ o ∈ later, o ≠ .start) →
      E.Reaches (k.obeyAll held (.stop reason :: later)) s (.done out) t →
      out.2 = none ∧ ∀ r ∈ out.1, r.Idle := by
  refine ⟨?_, fun E _ _ _ _ _ hl hr => (stop_then_upholds E k _ reason hl _ hr).2⟩
  intro up q s hr
  have hm := stop_escalation k h reason up hr
  refine ⟨hm.always, ?_, ?_, ?_⟩
  · rintro β r next e rfl he
    exact hm.2 e he
  · rintro u rfl
    exact hm.2
  · rintro rfl
    exact (stop_peace k h reason hr).always

/-- A server that runs on whatever it is told, with the console connected. -/
def stubborn : Player (mortal ⟨0⟩) where
  answer
    | _, .sleep _, up => some ((), up)
    | _, .say .., up => some ((), up)
    | _, .isRunning _, up => some (up, up)
    | _, .canInterrupt _, up => some (true, up)
    | _, .interrupt _, up => some (.ok (), up)
    | _, .terminate _, up => some (.ok (), up)
    | _, .exitCode _, up => some (none, up)
    | _, .release _, up => some ((), up)
    | _, .isConnected, up => some (true, up)
    | _, .command .., up => some ("", up)
    | _, _, _ => none
  possible := by
    intro β r up up' b hb
    cases r <;> simp only [Option.some.injEq, Prod.mk.injEq, reduceCtorEq] at hb
    case isRunning g =>
      obtain ⟨rfl, rfl⟩ := hb
      exact ⟨fun _ => rfl, rfl⟩
    all_goals exact hb.2.symm

/-- A keeper that waits twice for an exit. -/
def patient : Keeper := ⟨⟨"server", [], "."⟩, .zero, ⟨.ofSecs 2, 10⟩, ⟨.ofSecs 1, 2⟩⟩

/-- A stubborn server sees all resorts, and the keeper has no process afterwards. -/
theorem stop_escalates_stubborn : ∃ s t : Bool × List Exchange,
    (mortal ⟨0⟩).recorded.Reaches (patient.stop (some ⟨0⟩) "update") (true, []) (.done ()) s ∧
    resorts s.2 = [.quit, .interrupt ⟨0⟩, .terminate ⟨0⟩] ∧ Over ⟨0⟩ s ∧
    (mortal ⟨0⟩).recorded.Reaches (patient.obeyAll (some ⟨0⟩) [.stop "update", .look])
      (true, []) (.done ([.stopped, .running false], none)) t ∧ (Reply.running false).Idle := by
  let p := patient.stop (some ⟨0⟩) "update"
  let q := patient.obeyAll (some ⟨0⟩) [.stop "update", .look]
  have hp : (stubborn.recorded.play 40 p (true, [])).1 = .done () :=
    Program.eq_done_of_result? (by decide +kernel)
  have hq : (stubborn.recorded.play 40 q (true, [])).1
      = .done ([.stopped, .running false], none) :=
    Program.eq_done_of_result? (by decide +kernel)
  have rp := hp ▸ stubborn.recorded.reaches 40 p (true, [])
  have rq := hq ▸ stubborn.recorded.reaches 40 q (true, [])
  have escalates := stop_escalates patient ⟨0⟩ "update"
  refine ⟨_, _, rp, by decide +kernel, ((escalates.1 rp).2.2.1 () rfl).1, rq, ?_⟩
  have later : ∀ o ∈ [Order.look], o ≠ .start := by simp
  exact (escalates.2 (mortal ⟨0⟩).recorded later rq).2 _ (by simp)

end Keeper
end ServerWarden
