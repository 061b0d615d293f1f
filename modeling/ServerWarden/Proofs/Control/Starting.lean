/-
# A start is all or nothing

A start looks at the process that is held, spawns a new one, and looks at that until it is found
running or the looks run out.  It leaves by one of four exits, and each of them has to settle whom
the processes belong to.

What a start does, talk apart, are its acts.  `Keeper.Course` says what they are for each exit, and
`Keeper.start_course` that every start takes one of these courses, whatever it is answered.
`Keeper.AllOrNothing` is what the courses have in common: what was spawned, what was ended, and that
every process is either kept or given up.
-/
import ServerWarden.Control.Keeper
import ServerWarden.Proofs.Control.Completion

namespace ServerWarden

open Surroundings

universe u

namespace Keeper

/-! ## 1. Acts -/

/-- What is done with processes and with time. -/
inductive Act where
  /-- A look at a process, with what it found. -/
  | look (h : Handle) (up : Bool)
  | sleep (d : Duration)
  /-- An attempt to start a process, with the process if there is one. -/
  | spawn (spec : LaunchSpec) (started : Option Handle)
  | terminate (h : Handle)
  | release (h : Handle)
  /-- Anything else but talk. -/
  | other
  deriving DecidableEq, Repr

end Keeper

/-- The act that an exchange is, if it is more than talk. -/
def Surroundings.Exchange.act? : Exchange → Option Keeper.Act
  | ⟨.isRunning h, up⟩ => some (.look h up)
  | ⟨.sleep d, _⟩ => some (.sleep d)
  | ⟨.spawn spec, result⟩ => some (.spawn spec result.toOption)
  | ⟨.terminate h, _⟩ => some (.terminate h)
  | ⟨.release h, _⟩ => some (.release h)
  | ⟨.say .., _⟩ | ⟨.processId _, _⟩ => none
  | _ => some .other

namespace Keeper

/-- The acts of a history, in their order. -/
def acts (history : List Exchange) : List Act := history.filterMap Exchange.act?

theorem acts_append_single (history : List Exchange) (x : Exchange) :
    acts (history ++ [x]) = acts history ++ x.act?.toList := by
  cases hx : x.act? <;> simp [acts, List.filterMap_append, hx]

/-- Looks at a process with what they found, and a sleep between any two of them. -/
def watch (h : Handle) (interval : Duration) (seen : List Bool) : List Act :=
  (seen.map (Act.look h)).intersperse (.sleep interval)

/-- What looks find that end with the first that finds a process running, and of which there are
at most `attempts`. -/
inductive UntilUp (attempts : Nat) : List Bool → Bool → Prop where
  | up {n : Nat} (h : n < attempts) : UntilUp attempts (List.replicate n false ++ [true]) true
  | never : UntilUp attempts (List.replicate attempts false) false

/-- The look at a process that is held, which does not find it running. -/
def absent (held : Option Handle) : List Act := held.toList.map (Act.look · false)

/-- The acts of a start that spawns: the look at the process that is held, the attempt, and what
comes after. -/
def spawning (held : Option Handle) (spec : LaunchSpec) (started : Option Handle)
    (after : List Act) : List Act :=
  absent held ++ .spawn spec started :: after

/-- **The courses of a start**, with its answer and the process that is kept then. -/
inductive Course (k : Keeper) (held : Option Handle) :
    List Act → Bool → Option Handle → Prop where
  /-- The process that is held runs. -/
  | running {g : Handle} (h : held = some g) : Course k held [.look g true] true held
  /-- No process can be started. -/
  | refused : Course k held (spawning held k.launch none []) false held
  /-- The new process comes up, and takes the place of the old one. -/
  | up {h : Handle} {seen : List Bool} (hs : UntilUp k.startPoll.attempts seen true) :
    Course k held (spawning held k.launch (some h)
      (watch h k.startPoll.interval seen ++ held.toList.map .release)) true (some h)
  /-- The new process never comes up, and is ended. -/
  | never {h : Handle} {seen : List Bool} (hs : UntilUp k.startPoll.attempts seen false) :
    Course k held (spawning held k.launch (some h)
      (watch h k.startPoll.interval seen ++ [.terminate h, .release h])) false held

/-! ## 2. Every start takes one of these courses -/

section

variable {σ : Type u} {E : Surroundings σ} {α β : Type} {done : List Act}
  {s : σ × List Exchange} {post : α → σ × List Exchange → Prop}

/-- The acts so far.  The surroundings do not change them. -/
def did (E : Surroundings σ) (done : List Act) : Condition E.recorded .free where
  holds t := acts t.2 = done
  stable _ _ hm ht := (congrArg acts hm.2).trans ht
  always _ _ := trivial

/-- One more exchange. -/
theorem completes_ask {r : Request β} {next : β → Program α} (hs : acts s.2 = done)
    (hnext : ∀ b t, acts t.2 = done ++ (Exchange.act? ⟨r, b⟩).toList →
      E.recorded.Completes .free post (next b) t) :
    E.recorded.Completes .free post (.ask r next) s := by
  refine .ask (did E done) hs (fun _ _ => trivial) ?_
  intro t b t' ht ha
  refine hnext b t' ?_
  rw [ha.2, acts_append_single, ht]

/-- An exchange that is only talk. -/
theorem completes_talk {r : Request β} {next : β → Program α} (hs : acts s.2 = done)
    (hr : ∀ b, Exchange.act? ⟨r, b⟩ = none)
    (hnext : ∀ b t, acts t.2 = done → E.recorded.Completes .free post (next b) t) :
    E.recorded.Completes .free post (.ask r next) s := by
  refine completes_ask hs ?_
  intro b t ht
  rw [hr b, Option.toList_none, List.append_nil] at ht
  exact hnext b t ht

theorem completes_done {a : α} (hs : acts s.2 = done)
    (hpost : ∀ t, acts t.2 = done → post a t) :
    E.recorded.Completes .free post (.done a) s := .done (did E done) hs hpost

end

section

variable {σ : Type u} {E : Surroundings σ} {done : List Act} {s : σ × List Exchange}

theorem isRunning_did (held : Option Handle) (hs : acts s.2 = done) :
    E.recorded.Completes .free (fun up t => if up then
      ∃ g, held = some g ∧ acts t.2 = done ++ [.look g true] else acts t.2 = done ++ absent held)
      (isRunning held) s := by
  cases held with
  | none => exact completes_done hs fun t ht => by simpa [absent] using ht
  | some g =>
    refine completes_ask hs ?_
    intro up t ht
    refine completes_done ht fun t ht => ?_
    cases up with
    | true => exact ⟨g, rfl, ht⟩
    | false => exact ht

theorem release_did (held : Option Handle) (hs : acts s.2 = done) :
    E.recorded.Completes .free (fun _ t => acts t.2 = done ++ held.toList.map .release)
      (release held) s := by
  cases held with
  | none => exact completes_done hs fun t ht => by simpa using ht
  | some g => exact completes_ask hs fun _ t ht => completes_done ht fun _ ht => ht

theorem discard_did (h : Handle) (hs : acts s.2 = done) :
    E.recorded.Completes .free (fun _ t => acts t.2 = done ++ [.terminate h, .release h])
      (discard h) s := by
  refine completes_ask hs ?_
  intro result t ht
  have last : ∀ t : σ × List Exchange, acts t.2 = done ++ [.terminate h] →
      E.recorded.Completes .free (fun _ t => acts t.2 = done ++ [.terminate h, .release h])
        (.request (.release h)) t := by
    intro t ht
    refine completes_ask ht fun _ t ht => completes_done ht fun t ht => ?_
    simpa [Exchange.act?] using ht
  cases result with
  | ok u => exact last t ht
  | error e => exact completes_talk ht (fun _ => rfl) fun _ t ht => last t ht

theorem UntilUp.cons {attempts : Nat} {seen : List Bool} {up : Bool}
    (h : UntilUp attempts seen up) : UntilUp (attempts + 1) (false :: seen) up := by
  cases h with
  | up h => exact .up (Nat.succ_lt_succ h)
  | never => exact .never

theorem UntilUp.ne_nil {attempts : Nat} {seen : List Bool} {up : Bool}
    (h : UntilUp attempts seen up) (ha : attempts ≠ 0) : seen ≠ [] := by
  cases h with
  | up h => simp
  | never => simpa using ha

theorem watch_cons {h : Handle} {interval : Duration} {up : Bool} {seen : List Bool}
    (hs : seen ≠ []) : watch h interval (up :: seen) =
      .look h up :: .sleep interval :: watch h interval seen := by
  cases seen with
  | nil => exact absurd rfl hs
  | cons next seen => rfl

/-- **Looking at a new process** until it runs.  The induction is on the looks that are left. -/
theorem awaitStart_did (h : Handle) (interval : Duration) (attempts : Nat)
    (hs : acts s.2 = done) :
    E.recorded.Completes .free (fun up t => ∃ seen, UntilUp attempts seen up ∧
      acts t.2 = done ++ watch h interval seen) (awaitStart h interval attempts) s := by
  induction attempts generalizing s done with
  | zero => exact completes_done hs fun t ht => ⟨[], .never, by simpa [watch] using ht⟩
  | succ attempts ih =>
    refine completes_ask hs ?_
    intro up t ht
    cases up with
    | true =>
      exact completes_done ht fun t ht => ⟨[true], .up (Nat.succ_pos attempts), ht⟩
    | false =>
      cases attempts with
      | zero => exact completes_done ht fun t ht => ⟨[false], .never, ht⟩
      | succ attempts =>
        refine completes_ask ht fun _ t ht => (ih ht).mono ?_
        rintro up t ⟨seen, hseen, ht⟩
        refine ⟨false :: seen, hseen.cons, ?_⟩
        rw [ht, watch_cons (hseen.ne_nil (Nat.succ_ne_zero attempts))]
        simp [Exchange.act?]

/-- **Every start takes one of the courses**, whatever it is answered, and comes to its end. -/
theorem start_course (k : Keeper) (held : Option Handle) (s : σ) :
    E.recorded.Completes .free (fun r t => Course k held (acts t.2) r.1 r.2) (k.start held)
      (s, []) := by
  refine (isRunning_did held rfl).bind ?_
  intro up t ht
  cases up with
  | true =>
    obtain ⟨g, hg, ht⟩ := ht
    exact completes_done ht fun t ht => ht ▸ .running hg
  | false =>
    have ht : acts t.2 = absent held := ht
    refine completes_talk ht (fun _ => rfl) fun _ t ht => completes_ask ht ?_
    intro result t ht
    cases result with
    | error e =>
      exact completes_talk ht (fun _ => rfl) fun _ t ht =>
        completes_done ht fun t ht => ht ▸ .refused
    | ok h =>
      refine (awaitStart_did h k.startPoll.interval k.startPoll.attempts ht).bind ?_
      rintro up t ⟨seen, hseen, ht⟩
      cases up with
      | true =>
        refine completes_talk ht (fun _ => rfl) fun _ t ht =>
          completes_talk ht (fun _ => rfl) fun _ t ht => (release_did held ht).bind ?_
        intro _ t ht
        refine completes_done ht fun t ht => ?_
        rw [ht, List.append_assoc, List.append_assoc]
        exact .up hseen
      | false =>
        refine completes_talk ht (fun _ => rfl) fun _ t ht => (discard_did h ht).bind ?_
        intro _ t ht
        refine completes_done ht fun t ht => ?_
        rw [ht, List.append_assoc, List.append_assoc]
        exact .never hseen

end

/-! ## 3. What the courses have in common -/

/-- The processes that were started. -/
def launches (done : List Act) : List Handle := done.filterMap fun
  | .spawn _ started => started
  | _ => none

/-- The specifications that a process was to be started by. -/
def spawns (done : List Act) : List LaunchSpec := done.filterMap fun
  | .spawn spec _ => some spec
  | _ => none

def terminations (done : List Act) : List Handle := done.filterMap fun
  | .terminate h => some h
  | _ => none

def releases (done : List Act) : List Handle := done.filterMap fun
  | .release h => some h
  | _ => none

/-- What the looks at a process found. -/
def looks (h : Handle) (done : List Act) : List Bool := done.filterMap fun
  | .look g up => if g = h then some up else none
  | _ => none

def rests (done : List Act) : List Duration := done.filterMap fun
  | .sleep d => some d
  | _ => none

/-- The nanoseconds that were slept. -/
def slept (done : List Act) : Nat := (rests done).foldr (fun d total => d.nanos + total) 0

/-- What was done after a process was spawned. -/
def sinceSpawn : List Act → List Act
  | [] => []
  | .spawn .. :: after => after
  | _ :: done => sinceSpawn done

/-- The process that is held was found running. -/
def HeldRuns (held : Option Handle) (done : List Act) : Prop :=
  ∃ g, held = some g ∧ done.head? = some (.look g true)

/-- A new process was found running by one of the first looks at it. -/
def CameUp (k : Keeper) (h : Handle) (done : List Act) : Prop :=
  h ∈ launches done ∧ true ∈ (looks h (sinceSpawn done)).take k.startPoll.attempts

/-- An act that ends a process or gives it up. -/
def Act.Settles (x : Act) : Prop := (∃ g, x = .terminate g) ∨ ∃ g, x = .release g

/-- How a new process is looked at: until it runs or the looks run out, with the interval slept
between any two looks.  Then nothing more is slept or looked at. -/
structure Polled (k : Keeper) (h : Handle) (done : List Act) (up : Bool) (seen : List Bool) :
    Prop where
  untilUp : UntilUp k.startPoll.attempts seen up
  watched : ∃ settled, sinceSpawn done = watch h k.startPoll.interval seen ++ settled ∧
    ∀ x ∈ settled, x.Settles
  slept : slept done = (seen.length - 1) * k.startPoll.interval.nanos

/-- **All or nothing.**  What was done in a start, with its answer and the process that is kept. -/
structure AllOrNothing (k : Keeper) (held : Option Handle) (done : List Act) (up : Bool)
    (kept : Option Handle) : Prop where
  spawns_once : (spawns done).length ≤ 1
  spawns_launch : ∀ spec ∈ spawns done, spec = k.launch
  spared : HeldRuns held done → spawns done = []
  up_iff : up = true ↔ HeldRuns held done ∨ ∃ h, CameUp k h done
  kept_held : HeldRuns held done → kept = held
  kept_new : ∀ h, CameUp k h done → kept = some h
  kept_failed : up = false → kept = held
  terminations : terminations done = if up then [] else launches done
  polled : ∀ h ∈ launches done, ∃ seen, Polled k h done up seen
  /-- Every process is either kept or given up. -/
  owned : (held.toList ++ launches done).Perm (kept.toList ++ releases done)
  orderly : .other ∉ done


section

variable (a b : List Act)

@[simp] theorem launches_append : launches (a ++ b) = launches a ++ launches b :=
  List.filterMap_append

@[simp] theorem spawns_append : spawns (a ++ b) = spawns a ++ spawns b := List.filterMap_append

@[simp] theorem terminations_append : terminations (a ++ b) = terminations a ++ terminations b :=
  List.filterMap_append

@[simp] theorem releases_append : releases (a ++ b) = releases a ++ releases b :=
  List.filterMap_append

@[simp] theorem looks_append (h : Handle) : looks h (a ++ b) = looks h a ++ looks h b :=
  List.filterMap_append

@[simp] theorem rests_append : rests (a ++ b) = rests a ++ rests b := List.filterMap_append

end

theorem slept_of_rests {done : List Act} {n : Nat} {interval : Duration}
    (h : rests done = List.replicate n interval) : slept done = n * interval.nanos := by
  have total : ∀ n, (List.replicate n interval).foldr (fun d total => d.nanos + total) 0 =
      n * interval.nanos := by
    intro n
    induction n with
    | zero => exact (Nat.zero_mul _).symm
    | succ n ih => rw [List.replicate_succ, List.foldr_cons, ih, Nat.succ_mul, Nat.add_comm]
  rw [slept, h, total]

/-! A watch consists of looks and sleeps. -/

section

variable {h : Handle} {interval : Duration} {seen : List Bool}

theorem of_mem_watch {x : Act} (hx : x ∈ watch h interval seen) :
    (∃ up, x = .look h up) ∨ x = .sleep interval := by
  induction seen with
  | nil => exact nomatch hx
  | cons up seen ih =>
    by_cases hs : seen = []
    · subst hs
      exact .inl ⟨up, List.mem_singleton.mp hx⟩
    · rw [watch_cons hs] at hx
      rcases List.mem_cons.mp hx with rfl | hx
      · exact .inl ⟨up, rfl⟩
      · rcases List.mem_cons.mp hx with rfl | hx
        · exact .inr rfl
        · exact ih hx

theorem filterMap_watch {γ : Type} {f : Act → Option γ} (hlook : ∀ up, f (.look h up) = none)
    (hsleep : f (.sleep interval) = none) : (watch h interval seen).filterMap f = [] := by
  refine List.filterMap_eq_nil_iff.mpr ?_
  intro x hx
  rcases of_mem_watch hx with ⟨up, rfl⟩ | rfl
  · exact hlook up
  · exact hsleep

@[simp] theorem launches_watch : launches (watch h interval seen) = [] :=
  filterMap_watch (fun _ => rfl) rfl

@[simp] theorem spawns_watch : spawns (watch h interval seen) = [] :=
  filterMap_watch (fun _ => rfl) rfl

@[simp] theorem terminations_watch : terminations (watch h interval seen) = [] :=
  filterMap_watch (fun _ => rfl) rfl

@[simp] theorem releases_watch : releases (watch h interval seen) = [] :=
  filterMap_watch (fun _ => rfl) rfl

@[simp] theorem looks_watch : looks h (watch h interval seen) = seen := by
  induction seen with
  | nil => rfl
  | cons up seen ih =>
    by_cases hs : seen = []
    · subst hs
      simp [watch, looks]
    · rw [watch_cons hs]
      simpa [looks] using ih

@[simp] theorem rests_watch :
    rests (watch h interval seen) = List.replicate (seen.length - 1) interval := by
  induction seen with
  | nil => rfl
  | cons up seen ih =>
    by_cases hs : seen = []
    · subst hs
      rfl
    · have hlen : seen.length = seen.length - 1 + 1 :=
        (Nat.sub_add_cancel (List.length_pos_iff.mpr hs)).symm
      rw [watch_cons hs, List.length_cons, Nat.add_sub_cancel, hlen, List.replicate_succ, ← ih]
      rfl

end

/-! Before a process is spawned there is at most the look at the one that is held. -/

section

variable (held : Option Handle) (spec : LaunchSpec) (started : Option Handle) (after : List Act)

@[simp] theorem sinceSpawn_spawn :
    sinceSpawn (spawning held spec started after) = after := by
  cases held <;> rfl

@[simp] theorem launches_spawn :
    launches (spawning held spec started after) = started.toList ++ launches after := by
  cases held <;> cases started <;> rfl

@[simp] theorem spawns_spawn :
    spawns (spawning held spec started after) = spec :: spawns after := by
  cases held <;> rfl

@[simp] theorem terminations_spawn :
    terminations (spawning held spec started after) = terminations after := by
  cases held <;> rfl

@[simp] theorem releases_spawn :
    releases (spawning held spec started after) = releases after := by
  cases held <;> rfl

@[simp] theorem rests_spawn : rests (spawning held spec started after) = rests after := by
  cases held <;> rfl

theorem other_notMem_spawning (h : .other ∉ after) : .other ∉ spawning held spec started after := by
  cases held <;> simpa [spawning, absent] using h

theorem not_heldRuns : ¬ HeldRuns held (spawning held spec started after) := by
  rintro ⟨g, rfl, hhead⟩
  simp [spawning, absent] at hhead

end

theorem UntilUp.mem_take_iff {attempts : Nat} {seen : List Bool} {up : Bool}
    (h : UntilUp attempts seen up) : true ∈ seen.take attempts ↔ up = true := by
  cases h with
  | @up n h =>
    have hlen : (List.replicate n false ++ [true]).length ≤ attempts := by
      simpa using Nat.succ_le_of_lt h
    rw [List.take_of_length_le hlen]
    simp
  | never => simp

section

variable {settled : List Act} (hsettled : ∀ x ∈ settled, x.Settles)
include hsettled

theorem filterMap_settled {γ : Type} {f : Act → Option γ}
    (hterminate : ∀ g, f (.terminate g) = none)
    (hrelease : ∀ g, f (.release g) = none) : settled.filterMap f = [] := by
  refine List.filterMap_eq_nil_iff.mpr ?_
  intro x hx
  rcases hsettled x hx with ⟨g, rfl⟩ | ⟨g, rfl⟩
  · exact hterminate g
  · exact hrelease g

theorem launches_settled : launches settled = [] :=
  filterMap_settled hsettled (fun _ => rfl) fun _ => rfl

theorem spawns_settled : spawns settled = [] :=
  filterMap_settled hsettled (fun _ => rfl) fun _ => rfl

theorem looks_settled (h : Handle) : looks h settled = [] :=
  filterMap_settled hsettled (fun _ => rfl) fun _ => rfl

theorem rests_settled : rests settled = [] :=
  filterMap_settled hsettled (fun _ => rfl) fun _ => rfl

/-- **A process that was spawned** is settled as its watch ended. -/
theorem allOrNothing_of_spawned {k : Keeper} {held kept : Option Handle} {h : Handle}
    {seen : List Bool} {up : Bool} (hseen : UntilUp k.startPoll.attempts seen up)
    (hterminations : terminations settled = if up then [] else [h])
    (hkept : kept = if up then some h else held)
    (howned : (held.toList ++ [h]).Perm (kept.toList ++ releases settled)) :
    AllOrNothing k held (spawning held k.launch (some h)
      (watch h k.startPoll.interval seen ++ settled)) up kept := by
  generalize hafter : watch h k.startPoll.interval seen ++ settled = after
  have hheld := not_heldRuns held k.launch (some h) after
  have hlaunches : launches (spawning held k.launch (some h) after) = [h] := by
    simp [← hafter, launches_settled hsettled]
  have hlooks : looks h after = seen := by simp [← hafter, looks_settled hsettled]
  have hup : ∀ g, CameUp k g (spawning held k.launch (some h) after) ↔ g = h ∧ up = true := by
    intro g
    rw [CameUp, hlaunches, List.mem_singleton, sinceSpawn_spawn]
    refine and_congr_right ?_
    rintro rfl
    rw [hlooks, hseen.mem_take_iff]
  exact {
    spawns_once := by simp [← hafter, spawns_settled hsettled]
    spawns_launch := by simp [← hafter, spawns_settled hsettled]
    spared := fun hr => absurd hr hheld
    up_iff := by simp [hheld, hup]
    kept_held := fun hr => absurd hr hheld
    kept_new := by
      intro g hg
      obtain ⟨rfl, rfl⟩ := (hup g).mp hg
      exact hkept
    kept_failed := by
      rintro rfl
      exact hkept
    terminations := by
      rw [hlaunches, ← hterminations]
      simp [← hafter]
    polled := by
      rw [hlaunches]
      refine List.forall_mem_singleton.mpr ⟨seen, hseen, ⟨settled, ?_, hsettled⟩, ?_⟩
      · rw [sinceSpawn_spawn, hafter]
      · exact slept_of_rests (by simp [← hafter, rests_settled hsettled])
    owned := by
      rw [hlaunches]
      simpa [← hafter] using howned
    orderly := by
      refine other_notMem_spawning held k.launch (some h) after ?_
      intro hother
      rw [← hafter] at hother
      rcases List.mem_append.mp hother with hwatch | hother
      · rcases of_mem_watch hwatch with ⟨up, h⟩ | h <;> exact nomatch h
      · rcases hsettled _ hother with ⟨g, h⟩ | ⟨g, h⟩ <;> exact nomatch h }

end

theorem Course.allOrNothing {k : Keeper} {held kept : Option Handle} {done : List Act} {up : Bool}
    (h : Course k held done up kept) : AllOrNothing k held done up kept := by
  cases h with
  | @running g hheld =>
    have hruns : HeldRuns held [.look g true] := ⟨g, hheld, rfl⟩
    exact {
      spawns_once := Nat.zero_le 1
      spawns_launch := nofun
      spared := fun _ => rfl
      up_iff := ⟨fun _ => .inl hruns, fun _ => rfl⟩
      kept_held := fun _ => rfl
      kept_new := fun h hup => nomatch hup.1
      kept_failed := fun hup => nomatch hup
      terminations := rfl
      polled := nofun
      owned := .refl _
      orderly := by simp }
  | refused =>
    have hheld := not_heldRuns held k.launch none []
    have hlaunches : launches (spawning held k.launch none []) = [] := launches_spawn ..
    have hspawns : spawns (spawning held k.launch none []) = [k.launch] := spawns_spawn ..
    have hterminations : terminations (spawning held k.launch none []) = [] :=
      terminations_spawn ..
    have hreleases : releases (spawning held k.launch none []) = [] := releases_spawn ..
    exact {
      spawns_once := by simp [hspawns]
      spawns_launch := by simp [hspawns]
      spared := fun hr => absurd hr hheld
      up_iff := by simp [hheld, CameUp, hlaunches]
      kept_held := fun _ => rfl
      kept_new := by simp [CameUp, hlaunches]
      kept_failed := fun _ => rfl
      terminations := by simp [hlaunches, hterminations]
      polled := by simp [hlaunches]
      owned := by simp [hlaunches, hreleases]
      orderly := other_notMem_spawning held k.launch none [] nofun }
  | @up h seen hseen =>
    have hsettled : ∀ x ∈ held.toList.map Act.release, x.Settles := by
      intro x hx
      obtain ⟨g, -, rfl⟩ := List.mem_map.mp hx
      exact .inr ⟨g, rfl⟩
    refine allOrNothing_of_spawned hsettled hseen ?_ rfl ?_
    · cases held <;> rfl
    · have hreleases : releases (held.toList.map Act.release) = held.toList := by
        cases held <;> rfl
      rw [hreleases]
      exact List.perm_append_comm
  | @never h seen hseen =>
    have hsettled : ∀ x ∈ [Act.terminate h, Act.release h], x.Settles := by
      simp [Act.Settles]
    exact allOrNothing_of_spawned hsettled hseen rfl rfl (.refl _)

/-- **A start is all or nothing**, whatever it is answered: it returns if its requests are answered,
and then either the server runs and its process is kept, or nothing has changed and what was spawned
is ended and given up. -/
theorem start_all_or_nothing {σ : Type u} (E : Surroundings σ) (k : Keeper) (held : Option Handle)
    (s : σ) :
    ((∀ ⦃β : Type⦄ (r : Request β) (t : σ), ∃ b t', E.answers r t b t') →
      E.recorded.Returns (k.start held) (s, [])) ∧
    ∀ {up kept t history},
      E.recorded.Reaches (k.start held) (s, []) (.done (up, kept)) (t, history) →
      AllOrNothing k held (acts history) up kept := by
  constructor
  · intro answered
    refine (start_course k held s).returns ?_
    intro β r t _
    obtain ⟨b, t', ha⟩ := answered r t.1
    exact ⟨b, (t', t.2 ++ [⟨r, b⟩]), ha, rfl⟩
  · intro up kept t history hr
    have hcourse : Course k held (acts history) up kept := ((start_course k held s).upholds hr).2
    exact hcourse.allOrNothing

/-- Surroundings in which anything may be answered.  The state counts the looks so far. -/
def anything : Surroundings Nat where
  answers _ _ _ _ _ := True
  moves _ _ := False

theorem anything_answers {β : Type} (r : Request β) (t : Nat) :
    ∃ b t', anything.answers r t b t' := by
  cases r with
  | spawn spec => exact ⟨.ok ⟨0⟩, t, trivial⟩
  | interrupt h => exact ⟨.ok (), t, trivial⟩
  | terminate h => exact ⟨.ok (), t, trivial⟩
  | waitForSignals => exact ⟨⟨false, false, false⟩, t, trivial⟩
  | _ => exact ⟨default, t, trivial⟩

/-- A process that runs from the look of a number on. -/
def runningFrom (number : Nat) : Player anything where
  answer
    | _, .isRunning _, looked => some (decide (number ≤ looked), looked + 1)
    | _, .spawn _, looked => some (.ok ⟨7⟩, looked)
    | _, .sleep _, looked => some ((), looked)
    | _, .say .., looked => some ((), looked)
    | _, .processId _, looked => some (4711, looked)
    | _, .terminate _, looked => some (.ok (), looked)
    | _, .release _, looked => some ((), looked)
    | _, _, _ => none
  possible _ := trivial

/-- A keeper that looks at most three times. -/
def brisk : Keeper := ⟨⟨"server", [], "."⟩, .zero, ⟨.ofSecs 2, 3⟩, ⟨.ofSecs 1, 10⟩⟩

/-- With a dead process held, a new one that runs at the second look takes its place; one that never
runs is ended after the third. -/
theorem start_all_or_nothing_dead :
    anything.recorded.Returns (brisk.start (some ⟨3⟩)) (0, []) ∧
    (∃ t history, anything.recorded.Reaches (brisk.start (some ⟨3⟩)) (0, [])
        (.done (true, some ⟨7⟩)) (t, history) ∧
      acts history = [.look ⟨3⟩ false, .spawn brisk.launch (some ⟨7⟩), .look ⟨7⟩ false,
        .sleep (.ofSecs 2), .look ⟨7⟩ true, .release ⟨3⟩] ∧
      AllOrNothing brisk (some ⟨3⟩) (acts history) true (some ⟨7⟩)) ∧
    ∃ t history, anything.recorded.Reaches (brisk.start (some ⟨3⟩)) (0, [])
        (.done (false, some ⟨3⟩)) (t, history) ∧
      acts history = [.look ⟨3⟩ false, .spawn brisk.launch (some ⟨7⟩), .look ⟨7⟩ false,
        .sleep (.ofSecs 2), .look ⟨7⟩ false, .sleep (.ofSecs 2), .look ⟨7⟩ false,
        .terminate ⟨7⟩, .release ⟨7⟩] ∧
      AllOrNothing brisk (some ⟨3⟩) (acts history) false (some ⟨3⟩) := by
  let p := brisk.start (some ⟨3⟩)
  have hlate : ((runningFrom 2).recorded.play 40 p (0, [])).1 = .done (true, some ⟨7⟩) :=
    Program.eq_done_of_result? (by decide +kernel)
  have hnever : ((runningFrom 9).recorded.play 40 p (0, [])).1 = .done (false, some ⟨3⟩) :=
    Program.eq_done_of_result? (by decide +kernel)
  have late := hlate ▸ (runningFrom 2).recorded.reaches 40 p (0, [])
  have never := hnever ▸ (runningFrom 9).recorded.reaches 40 p (0, [])
  have result := start_all_or_nothing anything brisk (some ⟨3⟩) 0
  exact ⟨result.1 fun _ => anything_answers,
    ⟨_, _, late, by decide +kernel, result.2 late⟩,
    _, _, never, by decide +kernel, result.2 never⟩

end Keeper
end ServerWarden
