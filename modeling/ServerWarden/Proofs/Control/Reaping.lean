/-
# No signal after the last

The number of a child, which is that of its group, is free once its status was fetched, and may then
go to a stranger.  A handle fetches it as a side effect of a look, so whether a signal may be sent
depends on which look came last, on every way through a start and a stop; and the child may end
between any two of them, and in the middle of a call that ends it or gives it up.

`children` are surroundings in which requests for a process do what `Child` says, for any number of
processes, each of which may end at any moment.  A keeper that follows any orders keeps three things
there (`Keeper.serve_minds`).

* All children are sound (`Ward.Sound`): signals were sent in time, and what was given up is reaped.
* None is interrupted that is reaped.  This is what the keeper sees to; the other ways to send a
  signal look at the status themselves.
* The handles that were not given up are among those that the keeper holds (`Wards.InCare`), so that
  none is left over in the end.

A child whose status is known stays as it is for the rest of the run (`Keeper.known_for_good`).
-/
import Mathlib.Logic.Function.Basic
import ServerWarden.Child.Handle
import ServerWarden.Proofs.Control.Escalation

namespace ServerWarden

open Surroundings

/-! ## 1. A child, and what it may do meanwhile -/

namespace Child

/-- What a child may do by itself. -/
inductive Lives : Child → Child → Prop where
  | on (c : Child) : Lives c c
  | ends (c : Child) (status : ExitStatus) : Lives c (c.finish status)

/-- **What a termination leaves**, if the child may end in the middle of it.  Until the signal is
sent only the handle is looked at, so an end before that is one before the termination. -/
inductive Terminated (c : Child) : Child → Prop where
  | known {status : ExitStatus} : c.status = some status → Terminated c c
  | killed {c' : Child} : c.status = none → Lives (c.send .kill).2 c' →
      Terminated c (c'.finish killed).fetch

theorem terminated_terminate (c : Child) : Terminated c c.terminate := by
  unfold terminate
  split
  next status h => exact .known h
  next h => exact .killed h (.on _)

/-- **What giving up a handle leaves**, if the child may end in the middle of it. -/
inductive Released (c : Child) : Child → Prop where
  | gone : c.isRunning.1 = false → Released c c.isRunning.2
  | running {c' c'' : Child} : c.isRunning.1 = true → Lives c.isRunning.2 c' →
      Terminated c' c'' → Released c c''

theorem released_release (c : Child) : Released c c.release := by
  unfold release
  split
  next c' h =>
    have hc : c.isRunning.2 = c' := congrArg Prod.snd h
    exact .running (congrArg Prod.fst h) (.on _) (hc ▸ terminated_terminate _)
  next c' h =>
    have hc : c.isRunning.2 = c' := congrArg Prod.snd h
    exact hc ▸ .gone (congrArg Prod.fst h)

variable {c c' : Child} {status : ExitStatus}

@[simp] theorem finish_status (c : Child) (status : ExitStatus) :
    (c.finish status).status = c.status := by
  unfold finish
  split <;> rfl

@[simp] theorem finish_sent (c : Child) (status : ExitStatus) :
    (c.finish status).sent = c.sent := by
  unfold finish
  split <;> rfl

/-- A child is not reaped by ending. -/
@[simp] theorem finish_reaped (c : Child) (status : ExitStatus) :
    (c.finish status).life = .reaped ↔ c.life = .reaped := by
  unfold finish
  split
  next h => simp [h]
  next => rfl

theorem fetch_finish_life (c : Child) (status : ExitStatus) :
    (c.finish status).fetch.life = .reaped := by
  cases h : c.life <;> simp [finish, fetch, h]

/-- A look finds a child running if there is no status after it. -/
theorem isRunning_fst (c : Child) : c.isRunning.1 = c.isRunning.2.status.isNone := by
  unfold isRunning
  split
  next h => simp [h]
  next => rfl

/-! ## 2. What a handle keeps -/

/-- The handle knows the status exactly if it was fetched, and each signal was sent before that. -/
structure Sound (c : Child) : Prop where
  reaped : c.life = .reaped ↔ c.status.isSome = true
  sent : ∀ x ∈ c.sent, x.wasFree = false

theorem sound_start : start.Sound := ⟨by decide, nofun⟩

namespace Sound

theorem not_reaped (h : c.Sound) (hs : c.status = none) : c.life ≠ .reaped := by
  rw [Ne, h.reaped, hs]
  nofun

theorem finish (h : c.Sound) (status : ExitStatus) : (c.finish status).Sound :=
  ⟨by simpa using h.reaped, by simpa using h.sent⟩

theorem lives (h : c.Sound) (hl : Lives c c') : c'.Sound := by
  cases hl with
  | on => exact h
  | ends status => exact h.finish status

theorem fetch (h : c.Sound) : c.fetch.Sound := by
  unfold Child.fetch
  split
  · exact ⟨by simp, h.sent⟩
  · exact h

theorem isRunning (h : c.Sound) : c.isRunning.2.Sound := by
  unfold Child.isRunning
  split
  · exact h
  · exact h.fetch

/-- What was just seen running is not reaped, and what was not is. -/
theorem isRunning_iff (h : c.Sound) :
    c.isRunning.1 = true ↔ c.isRunning.2.life ≠ .reaped := by
  rw [isRunning_fst, Ne, h.isRunning.reaped, Option.isNone_iff_eq_none,
    Option.not_isSome_iff_eq_none]

/-- A signal may be sent before a child is reaped. -/
theorem send (h : c.Sound) (hl : c.life ≠ .reaped) (signal : GroupSignal) :
    (c.send signal).2.Sound where
  reaped := h.reaped
  sent := List.forall_mem_cons.mpr ⟨beq_false_of_ne hl, h.sent⟩

/-- A termination sends its signal in time, and reaps the child. -/
theorem terminated (h : c.Sound) (ht : Terminated c c') : c'.Sound ∧ c'.life = .reaped := by
  cases ht with
  | known hs => exact ⟨h, h.reaped.mpr (Option.isSome_of_eq_some hs)⟩
  | killed hs hl =>
    have hsent : (c.send .kill).2.Sound := h.send (h.not_reaped hs) .kill
    exact ⟨((hsent.lives hl).finish killed).fetch, fetch_finish_life _ _⟩

theorem released (h : c.Sound) (hr : Released c c') : c'.Sound ∧ c'.life = .reaped := by
  cases hr with
  | gone hup => exact ⟨h.isRunning, not_not.mp (mt h.isRunning_iff.mpr (by simp [hup]))⟩
  | running _ hl ht => exact (h.isRunning.lives hl).terminated ht

end Sound

/-! A child whose status is known stays as it is. -/

theorem isRunning_of_known (hs : c.status = some status) : c.isRunning = (false, c) := by
  simp [isRunning, hs]

theorem Terminated.eq_of_known (ht : Terminated c c') (hs : c.status = some status) : c' = c := by
  cases ht with
  | known => rfl
  | killed hn => exact absurd (hn.symm.trans hs) (by simp)

theorem Released.eq_of_known (hr : Released c c') (hs : c.status = some status) : c' = c := by
  cases hr with
  | gone => rw [isRunning_of_known hs]
  | running hup => simp [isRunning_of_known hs] at hup

theorem Sound.finish_of_known (h : c.Sound) (hs : c.status = some status) (status' : ExitStatus) :
    c.finish status' = c := by
  have hl : c.life = .reaped := h.reaped.mpr (Option.isSome_of_eq_some hs)
  simp [Child.finish, hl]

end Child

/-! ## 3. Children in the care of a keeper -/

/-- A child, and whether its handle was given up. -/
structure Ward where
  child : Child
  dropped : Bool
  deriving DecidableEq

/-- The process whose child answers a request. -/
def Request.ward? : ⦃β : Type⦄ → Request β → Option Handle
  | _, .isRunning h => some h
  | _, .interrupt h => some h
  | _, .terminate h => some h
  | _, .exitCode h => some h
  | _, .release h => some h
  | _, _ => none

/-- Requests that interrupt a process. -/
def Request.Interrupts : ⦃β : Type⦄ → Request β → Prop
  | _, .interrupt _ => True
  | _, _ => False

/-- Requests that neither interrupt nor start a process. -/
def Request.Spares ⦃β : Type⦄ (r : Request β) : Prop := ¬ r.Interrupts ∧ ¬ r.Spawns

namespace Ward

def start : Ward := ⟨.start, false⟩

/-- **What a child answers** to a request, and what the request leaves of it. -/
def Serves : ⦃β : Type⦄ → Request β → β → Ward → Ward → Prop
  | _, .isRunning _, up, w, w' =>
    up = w.child.isRunning.1 ∧ w' = { w with child := w.child.isRunning.2 }
  | _, .interrupt _, result, w, w' =>
    result = w.child.interrupt.1.mapError (.file ∘ .system) ∧
      w' = { w with child := w.child.interrupt.2 }
  | _, .terminate _, result, w, w' =>
    result = .ok () ∧ w.child.Terminated w'.child ∧ w'.dropped = w.dropped
  | _, .exitCode _, code, w, w' => code = w.child.exitCode ∧ w' = w
  | _, .release _, _, w, w' => w.child.Released w'.child ∧ w'.dropped = true
  | _, _, _, w, w' => w' = w

/-- A sound child, which is reaped if its handle was given up. -/
structure Sound (w : Ward) : Prop where
  child : w.child.Sound
  dropped : w.dropped = true → w.child.life = .reaped

theorem sound_start : start.Sound := ⟨Child.sound_start, nofun⟩

variable {w w' : Ward} {β : Type} {r : Request β} {b : β} {status : ExitStatus}

theorem Sound.finish (hw : w.Sound) (status : ExitStatus) :
    Sound { w with child := w.child.finish status } :=
  ⟨hw.child.finish status, fun hd => (Child.finish_reaped ..).mpr (hw.dropped hd)⟩

/-- **What one answer keeps**, if what is interrupted is not reaped. -/
theorem Sound.serves (hw : w.Sound) (hs : Serves r b w w')
    (hi : r.Interrupts → w.child.life ≠ .reaped) : w'.Sound := by
  cases r with
  | isRunning h =>
    obtain ⟨-, rfl⟩ := hs
    refine ⟨hw.child.isRunning, fun hd => ?_⟩
    have hl : w.child.life = .reaped := hw.dropped hd
    obtain ⟨status, hst⟩ := Option.isSome_iff_exists.mp (hw.child.reaped.mp hl)
    rwa [Child.isRunning_of_known hst]
  | interrupt h =>
    obtain ⟨-, rfl⟩ := hs
    exact ⟨hw.child.send (hi trivial) .interrupt, fun hd => absurd (hw.dropped hd) (hi trivial)⟩
  | terminate h =>
    obtain ⟨hc, hl⟩ := hw.child.terminated hs.2.1
    exact ⟨hc, fun _ => hl⟩
  | exitCode h => exact hs.2 ▸ hw
  | release h =>
    obtain ⟨hc, hl⟩ := hw.child.released hs.1
    exact ⟨hc, fun _ => hl⟩
  | _ => exact Eq.symm hs ▸ hw

/-- No handle is taken back. -/
theorem Serves.not_dropped (hs : Serves r b w w') (hd : w'.dropped = false) :
    w.dropped = false := by
  cases r with
  | isRunning h | interrupt h =>
    obtain ⟨-, rfl⟩ := hs
    exact hd
  | terminate h => exact hs.2.2 ▸ hd
  | exitCode h => exact hs.2 ▸ hd
  | release h => exact absurd (hs.2.symm.trans hd) (by decide)
  | _ => exact Eq.symm hs ▸ hd

/-- **A child whose status is known** is left alone by all answers. -/
theorem Serves.eq_of_known (hs : Serves r b w w') (hr : ¬ r.Interrupts)
    (hst : w.child.status = some status) : w'.child = w.child := by
  cases r with
  | isRunning h =>
    obtain ⟨-, rfl⟩ := hs
    rw [Child.isRunning_of_known hst]
  | interrupt h => exact absurd trivial hr
  | terminate h => exact hs.2.1.eq_of_known hst
  | exitCode h => rw [hs.2]
  | release h => exact hs.1.eq_of_known hst
  | _ => exact congrArg child hs

end Ward

/-- The processes that were started, by their handles. -/
abbrev Wards := Handle → Option Ward

namespace Wards

variable {h g : Handle} {R : Ward → Ward → Prop} {s t : Wards} {w : Ward}

def empty : Wards := fun _ => none

/-- Something is done to one process, and nothing if there is no such process. -/
inductive At (h : Handle) (R : Ward → Ward → Prop) (s : Wards) : Wards → Prop where
  | unknown : s h = none → At h R s s
  | known {w w' : Ward} : s h = some w → R w w' → At h R s (Function.update s h (some w'))

theorem forall_update {P : Handle → Ward → Prop} (hs : ∀ g v, s g = some v → P g v)
    (hw : P h w) : ∀ g v, Function.update s h (some w) g = some v → P g v := by
  intro g v hv
  by_cases hg : g = h
  · subst hg
    rw [Function.update_self] at hv
    exact Option.some.inj hv ▸ hw
  · rw [Function.update_of_ne hg] at hv
    exact hs g v hv

/-- What holds of all processes, and is kept by what is done to one. -/
theorem At.forall {P : Handle → Ward → Prop} (ha : At h R s t)
    (keep : ∀ w w', s h = some w → R w w' → P h w → P h w')
    (hs : ∀ g w, s g = some w → P g w) : ∀ g w, t g = some w → P g w := by
  cases ha with
  | unknown => exact hs
  | known hw hR => exact forall_update hs (keep _ _ hw hR (hs _ _ hw))

/-- What was just done to a process holds of it. -/
theorem At.self {P : Ward → Prop} (ha : At h R s t)
    (made : ∀ v w, s h = some v → R v w → P w) : ∀ w, t h = some w → P w := by
  intro w hw
  cases ha with
  | unknown hn => exact absurd (hn.symm.trans hw) (by simp)
  | known hv hR =>
    rw [Function.update_self] at hw
    exact Option.some.inj hw ▸ made _ _ hv hR

/-- Uses a process, if it is there. -/
def use {α : Type} (s : Wards) (h : Handle) (without : α) (f : Ward → α × Ward) :
    α × Wards :=
  match s h with
  | none => (without, s)
  | some w => ((f w).1, Function.update s h (some (f w).2))

theorem At.of_use {α : Type} {without a : α} {f : Ward → α × Ward}
    {R : α → Ward → Ward → Prop} (hu : s.use h without f = (a, t))
    (hf : ∀ w, R (f w).1 w (f w).2) : At h (R a) s t := by
  unfold use at hu
  split at hu
  next hn =>
    obtain ⟨-, rfl⟩ := Prod.mk.inj hu
    exact .unknown hn
  next w hw =>
    obtain ⟨rfl, rfl⟩ := Prod.mk.inj hu
    exact .known hw (hf w)

/-- All processes are sound. -/
def Sound (s : Wards) : Prop := ∀ h w, s h = some w → w.Sound

/-- All processes are sound, and the handles that were not given up are among those held. -/
structure InCare (s : Wards) (held : List Handle) : Prop where
  sound : s.Sound
  held : ∀ h w, s h = some w → w.dropped = false → h ∈ held

theorem inCare_empty : empty.InCare [] := ⟨nofun, nofun⟩

theorem InCare.mono {held held' : List Handle} (hs : s.InCare held)
    (hsub : ∀ h ∈ held, h ∈ held') : s.InCare held' :=
  ⟨hs.sound, fun h w hw hd => hsub h (hs.held h w hw hd)⟩

/-- A process is there, and its child is as given. -/
def Has (s : Wards) (h : Handle) (c : Child) : Prop := ∃ w, s h = some w ∧ w.child = c

theorem Has.update_of_ne {c : Child} (hc : s.Has g c) (hg : g ≠ h) :
    Has (Function.update s h (some w)) g c := by
  obtain ⟨v, hv, he⟩ := hc
  exact ⟨v, (Function.update_of_ne hg _ s).trans hv, he⟩

theorem Has.at {c : Child} (hc : s.Has g c) (ha : At h R s t)
    (keep : ∀ w w', g = h → s h = some w → R w w' → w.child = c → w'.child = c) :
    t.Has g c := by
  cases ha with
  | unknown => exact hc
  | known hw hR =>
    by_cases hg : g = h
    · subst hg
      obtain ⟨v, hv, he⟩ := hc
      obtain rfl := Option.some.inj (hv.symm.trans hw)
      exact ⟨_, Function.update_self .., keep _ _ rfl hw hR he⟩
    · exact hc.update_of_ne hg

end Wards

/-- **Surroundings in which requests for a process do what a child says.**  Any number of processes
may be started, and each may end at any moment, with any status.  Every other answer is possible at
any time. -/
def children : Surroundings Wards where
  answers
    | _, .spawn _, s, .error _, s' => s' = s
    | _, .spawn _, s, .ok h, s' => s h = none ∧ s' = Function.update s h (some .start)
    | _, r, s, b, s' =>
      match r.ward? with
      | some h => s.At h (Ward.Serves r b) s'
      | none => s' = s
  moves s s' := ∃ h status, s.At h (fun w w' => w' = { w with child := w.child.finish status }) s'

/-- **The duty of who looks after children**: they stay sound, and none is interrupted that is
reaped. -/
def unreaped : Duty Wards where
  always s := s.Sound
  asking _ r s :=
    r.Interrupts → ∀ h w, r.ward? = some h → s h = some w → w.child.life ≠ .reaped

section

variable {s t : Wards} {β : Type} {r : Request β} {b : β} {g : Handle} {c : Child}
  {status : ExitStatus}

/-- All that an answer can do: nothing, or there is a new process, or a child has served. -/
theorem children_answers_cases (ha : children.answers r s b t) :
    t = s ∨ (r.Spawns ∧ ∃ h, s h = none ∧ t = Function.update s h (some .start)) ∨
      ∃ h, r.ward? = some h ∧ s.At h (Ward.Serves r b) t := by
  cases r with
  | spawn spec =>
    cases b with
    | error e => exact .inl ha
    | ok h => exact .inr (.inl ⟨trivial, h, ha⟩)
  | isRunning h | interrupt h | terminate h | exitCode h | release h =>
    exact .inr (.inr ⟨h, rfl, ha⟩)
  | _ => exact .inl ha

/-- **What one answer keeps**: children stay sound if none that is reaped is interrupted. -/
theorem children_answers_sound (hask : unreaped.asking r s) (ha : children.answers r s b t)
    (hs : s.Sound) : t.Sound := by
  obtain rfl | ⟨-, h, -, rfl⟩ | ⟨h, hr, ha⟩ := children_answers_cases ha
  · exact hs
  · exact Wards.forall_update hs Ward.sound_start
  · exact ha.forall (fun w w' hw hserves hsound =>
      hsound.serves hserves fun hi => hask hi h w hr hw) hs

/-- The end of a child leaves all children sound. -/
theorem children_moves_sound (hm : children.moves s t) (hs : s.Sound) : t.Sound := by
  obtain ⟨h, status, ha⟩ := hm
  refine ha.forall ?_ hs
  rintro w _ - rfl hw
  exact hw.finish status

theorem Request.Spares.asking (hr : r.Spares) : unreaped.asking r s := fun hi => absurd hi hr.1

/-- **A child whose status is known** is left alone by every answer, if none is interrupted that is
reaped. -/
theorem children_answers_known (hc : c.Sound) (hst : c.status = some status)
    (hask : unreaped.asking r s) (ha : children.answers r s b t) (hs : s.Has g c) : t.Has g c := by
  obtain rfl | ⟨-, h, hnone, rfl⟩ | ⟨h, hr, ha⟩ := children_answers_cases ha
  · exact hs
  · refine hs.update_of_ne ?_
    rintro rfl
    obtain ⟨w, hw, -⟩ := hs
    exact absurd (hnone.symm.trans hw) (by simp)
  · refine hs.at ha ?_
    rintro w w' - hw hserves rfl
    have hl : w.child.life = .reaped := hc.reaped.mpr (Option.isSome_of_eq_some hst)
    exact hserves.eq_of_known (fun hi => hask hi h w hr hw hl) hst

/-- A child whose status is known is not touched by another end. -/
theorem children_moves_known (hc : c.Sound) (hst : c.status = some status)
    (hm : children.moves s t) (hs : s.Has g c) : t.Has g c := by
  obtain ⟨h, status', ha⟩ := hm
  refine hs.at ha ?_
  rintro w _ - - rfl rfl
  exact hc.finish_of_known hst status'

/-- A look at a child whose status is known finds it over. -/
theorem children_look_known {up : Bool} (hst : c.status = some status) (hs : s.Has g c)
    (ha : children.answers (.isRunning g) s up t) : up = false := by
  obtain ⟨w, hw, rfl⟩ := hs
  obtain hn | ⟨hv, he, -⟩ : Wards.At g (Ward.Serves (.isRunning g) up) s t := ha
  · exact absurd (hn.symm.trans hw) (by simp)
  · obtain rfl := Option.some.inj (hw.symm.trans hv)
    rw [he, Child.isRunning_of_known hst]

end

/-! ## 4. What is in care -/

section

variable {s t : Wards} {β : Type} {r : Request β} {b : β} {held held' : List Handle} {h : Handle}

theorem children_moves_inCare (hm : children.moves s t) (hs : s.InCare held) : t.InCare held := by
  refine ⟨children_moves_sound hm hs.sound, ?_⟩
  obtain ⟨h, status, ha⟩ := hm
  refine ha.forall ?_ hs.held
  rintro w _ - rfl hw
  exact hw

theorem children_answers_inCare (hask : unreaped.asking r s) (ha : children.answers r s b t)
    (hr : ¬ r.Spawns) (hs : s.InCare held) : t.InCare held := by
  refine ⟨children_answers_sound hask ha hs.sound, ?_⟩
  obtain rfl | ⟨hspawns, -⟩ | ⟨h, -, ha⟩ := children_answers_cases ha
  · exact hs.held
  · exact absurd hspawns hr
  · exact ha.forall (fun w w' _ hserves hw hd => hw (hserves.not_dropped hd)) hs.held

theorem inCare_of_spares (hs : s.InCare held) (ha : children.answers r s b t) (hr : r.Spares) :
    t.InCare held := children_answers_inCare hr.asking ha hr.2 hs

/-- A process that was started is in care. -/
theorem inCare_of_spawn {spec : LaunchSpec} (hs : s.InCare held)
    (ha : children.answers (.spawn spec) s (.ok h) t) : t.InCare (h :: held) := by
  obtain ⟨-, rfl⟩ := ha
  have hs' : s.InCare (h :: held) := hs.mono fun g hg => List.mem_cons_of_mem h hg
  exact ⟨Wards.forall_update hs'.sound Ward.sound_start,
    Wards.forall_update hs'.held fun _ => List.mem_cons_self⟩

/-- A process whose handle was given up need not be held any more. -/
theorem inCare_of_release {u : Unit} (hs : s.InCare held) (hsub : ∀ g ∈ held, g = h ∨ g ∈ held')
    (ha : children.answers (.release h) s u t) : t.InCare held' := by
  have hall : t.InCare held := inCare_of_spares hs ha ⟨id, id⟩
  have hself : ∀ w, t h = some w → w.dropped = true :=
    Wards.At.self ha fun v w _ hserves => hserves.2
  refine ⟨hall.sound, fun g w hw hd => ?_⟩
  rcases hsub g (hall.held g w hw hd) with rfl | hg
  · exact absurd ((hself w hw).symm.trans hd) (by decide)
  · exact hg

end

/-! ## 5. A keeper at work -/

namespace Keeper

variable {s : Wards} {held held' : List Handle} {h : Handle}

def minding (held : List Handle) : Condition children unreaped where
  holds s := s.InCare held
  stable _ _ := children_moves_inCare
  always _ hs := hs.sound

/-- What is in care, and one process is not reaped. -/
def sparing (held : List Handle) (h : Handle) : Condition children unreaped where
  holds s := s.InCare held ∧ ∀ w, s h = some w → w.child.life ≠ .reaped
  stable := by
    rintro s t hm ⟨hs, hl⟩
    refine ⟨children_moves_inCare hm hs, fun w hw => ?_⟩
    obtain ⟨g, status, ha⟩ := hm
    refine ha.forall (P := fun g v => g = h → v.child.life ≠ .reaped) ?_ ?_ h w hw rfl
    · rintro v _ - rfl hv hg
      exact mt (Child.finish_reaped ..).mp (hv hg)
    · rintro g v hv rfl
      exact hl v hv
  always _ hs := hs.1.sound

/-- A child that was just seen running is not reaped. -/
theorem sparing_of_look {t : Wards} (hs : s.InCare held)
    (ha : children.answers (.isRunning h) s true t) : (sparing held h).holds t := by
  refine ⟨inCare_of_spares hs ha ⟨id, id⟩, Wards.At.self ha ?_⟩
  rintro v _ hv ⟨hup, rfl⟩
  exact (hs.sound h v hv).child.isRunning_iff.mp hup.symm

/-- A keeper looks after its children in every run, and holds the given ones afterwards. -/
abbrev Minds {α : Type} (p : Program α) (s : Wards) (held : α → List Handle) : Prop :=
  children.Upholds unreaped p s fun a t => t.InCare (held a)

theorem done_minds {α : Type} {a : α} {held : α → List Handle} (hs : s.InCare (held a)) :
    Minds (.done a) s held := .done (minding (held a)) hs fun _ ht => ht

/-- A part that neither interrupts nor starts anything. -/
theorem spares_minds {α : Type} {p : Program α} (hp : p.Asks Request.Spares)
    (hs : s.InCare held) : Minds p s fun _ => held :=
  .of_asks (minding held) hp
    (fun _ _ hr ht => ⟨hr.asking, fun _ _ ha => inCare_of_spares ht ha hr⟩) hs

theorem drop_minds (hs : s.InCare held) (hsub : ∀ g ∈ held, g = h ∨ g ∈ held') :
    Minds (Program.request (.release h)) s fun _ => held' := by
  refine .ask (minding held) hs (fun _ _ => Request.Spares.asking ⟨id, id⟩) fun s u t hs ha => ?_
  exact done_minds (inCare_of_release hs hsub ha)

theorem release_minds {kept : Option Handle} (hs : s.InCare held)
    (hsub : ∀ g ∈ held, g ∈ kept.toList ∨ g ∈ held') : Minds (release kept) s fun _ => held' := by
  cases kept with
  | none => exact done_minds (hs.mono fun g hg => by simpa using hsub g hg)
  | some h => exact drop_minds hs fun g hg => by simpa using hsub g hg

/-- **An interrupt** comes after a look that found its child running, and no other look comes
between. -/
theorem interrupt_minds (k : Keeper) (hs : s.InCare held) :
    Minds (k.interrupt h) s fun _ => held := by
  refine .request (minding held) hs (fun _ _ => Request.Spares.asking ⟨id, id⟩)
    fun s up t hs ha => ?_
  cases up with
  | false => exact done_minds (inCare_of_spares hs ha ⟨id, id⟩)
  | true =>
    have ht : (sparing held h).holds t := sparing_of_look hs ha
    refine .request (sparing held h) ht (fun _ _ => Request.Spares.asking ⟨id, id⟩)
      fun s can t hs ha => ?_
    obtain rfl : t = s := ha
    cases can with
    | false => exact done_minds hs.1
    | true =>
      refine .request (sparing held h) hs (fun _ _ => Request.Spares.asking ⟨id, id⟩)
        fun s _ t hs ha => ?_
      obtain rfl : t = s := ha
      have hask : ∀ s, (sparing held h).holds s → unreaped.asking (.interrupt h) s := by
        rintro s hs - g w hg hw
        obtain rfl : h = g := Option.some.inj hg
        exact hs.2 w hw
      refine .request (sparing held h) hs hask fun s result t hs ha => ?_
      have ht : t.InCare held := children_answers_inCare (hask s hs) ha id hs.1
      refine spares_minds ?_ ht
      cases result with
      | error e => exact Program.asks_request.2 ⟨id, id⟩
      | ok u =>
        exact wait_asks (fun _ _ _ => ⟨id, id⟩) (fun _ => ⟨id, id⟩) (fun _ => ⟨id, id⟩) _ _ _ _

theorem holdBack_spares (k : Keeper) (kept : Option Handle) (reason : String) :
    (k.holdBack kept reason).Asks Request.Spares := by
  refine (k.holdBack_observes kept reason).mono fun r hr => ⟨?_, hr.harmless.1⟩
  cases r with
  | interrupt => exact absurd hr id
  | _ => exact id

theorem discard_minds (hs : s.InCare held) (hsub : ∀ g ∈ held, g = h ∨ g ∈ held') :
    Minds (discard h) s fun _ => held' := by
  refine .request (minding held) hs (fun _ _ => Request.Spares.asking ⟨id, id⟩)
    fun s result t hs ha => ?_
  have ht : t.InCare held := inCare_of_spares hs ha ⟨id, id⟩
  refine .bind (M := fun _ t => t.InCare held) ?_ fun _ t ht => drop_minds ht hsub
  cases result with
  | ok u => exact spares_minds (Program.asks_pure ()) ht
  | error e => exact spares_minds (Program.asks_request.2 ⟨id, id⟩) ht

/-- **A start** holds what runs afterwards, and nothing else. -/
theorem start_minds (k : Keeper) (kept : Option Handle) (hs : s.InCare kept.toList) :
    Minds (k.start kept) s fun r => r.2.toList := by
  refine .bind (spares_minds (isRunning_asks (fun _ => ⟨id, id⟩) kept) hs) fun up t ht => ?_
  cases up with
  | true => exact done_minds ht
  | false =>
    refine .bind (spares_minds (Program.asks_request.2 ⟨id, id⟩) ht) fun _ s hs => ?_
    refine .request (minding kept.toList) hs (fun _ _ => nofun) fun s result t hs ha => ?_
    cases result with
    | error e =>
      obtain rfl : t = s := ha
      exact .bind (spares_minds (Program.asks_request.2 ⟨id, id⟩) hs) fun _ t ht => done_minds ht
    | ok h =>
      have ht : t.InCare (h :: kept.toList) := inCare_of_spawn hs ha
      have hwait : (awaitStart h k.startPoll.interval k.startPoll.attempts).Asks Request.Spares :=
        awaitStart_asks (fun _ => ⟨id, id⟩) (fun _ => ⟨id, id⟩) _ _ _
      refine .bind (spares_minds hwait ht) fun up t ht => ?_
      cases up with
      | true =>
        refine .bind (spares_minds (Program.asks_request.2 ⟨id, id⟩) ht) fun _ t ht => ?_
        refine .bind (spares_minds (Program.asks_request.2 ⟨id, id⟩) ht) fun _ t ht => ?_
        have hsub : ∀ g ∈ h :: kept.toList, g ∈ kept.toList ∨ g ∈ [h] :=
          fun g hg => (List.mem_cons.mp hg).symm.imp_right List.mem_singleton.mpr
        exact .bind (release_minds ht hsub) fun _ t ht => done_minds ht
      | false =>
        refine .bind (spares_minds (Program.asks_request.2 ⟨id, id⟩) ht) fun _ t ht => ?_
        exact .bind (discard_minds ht fun _ => List.mem_cons.mp) fun _ t ht => done_minds ht

/-- **A stop** holds nothing afterwards.  Of its parts only one interrupts. -/
theorem stop_minds (k : Keeper) (kept : Option Handle) (reason : String)
    (hs : s.InCare kept.toList) : Minds (k.stop kept reason) s fun _ => [] := by
  cases kept with
  | none => exact done_minds hs
  | some h =>
    have hsub : ∀ g ∈ [h], g = h ∨ g ∈ [] := fun g hg => .inl (List.mem_singleton.mp hg)
    refine .request (minding [h]) hs (fun _ _ => Request.Spares.asking ⟨id, id⟩)
      fun s up t hs ha => ?_
    have ht : t.InCare [h] := inCare_of_spares hs ha ⟨id, id⟩
    cases up with
    | false => exact drop_minds ht hsub
    | true =>
      refine .bind (spares_minds (Program.asks_request.2 ⟨id, id⟩) ht) fun _ t ht => ?_
      refine .bind (spares_minds (k.holdBack_spares _ _) ht) fun _ t ht => ?_
      have hquit : (k.askToQuit h).Asks Request.Spares :=
        askToQuit_asks (fun _ _ _ => ⟨id, id⟩) (fun _ => ⟨id, id⟩) (fun _ => ⟨id, id⟩) ⟨id, id⟩
          ⟨id, id⟩ k h
      refine .bind (spares_minds hquit ht) fun _ t ht => ?_
      refine .bind (k.interrupt_minds ht) fun _ t ht => ?_
      have hend : (terminate h).Asks Request.Spares :=
        terminate_asks (fun _ _ _ => ⟨id, id⟩) (fun _ => ⟨id, id⟩) (fun _ => ⟨id, id⟩)
          (fun _ => ⟨id, id⟩) h
      refine .bind (spares_minds hend ht) fun _ t ht => ?_
      have hreport : (reportExit h).Asks Request.Spares :=
        reportExit_asks ⟨id, id⟩ fun _ _ _ => ⟨id, id⟩
      exact .bind (spares_minds hreport ht) fun _ t ht => drop_minds ht hsub

/-- One order. -/
theorem obey_minds (k : Keeper) (kept : Option Handle) (order : Order)
    (hs : s.InCare kept.toList) : Minds (k.obey kept order) s fun r => r.2.toList := by
  cases order with
  | start => exact .bind (k.start_minds kept hs) fun r t ht => done_minds ht
  | stop reason => exact .bind (k.stop_minds kept reason hs) fun _ t ht => done_minds ht
  | look =>
    have hlook : (isRunning kept).Asks Request.Spares := isRunning_asks (fun _ => ⟨id, id⟩) kept
    exact .bind (spares_minds hlook hs) fun _ t ht => done_minds ht
  | query =>
    have hquery : (query kept).Asks Request.Spares :=
      query_asks (fun _ => ⟨id, id⟩) (fun _ _ _ => ⟨id, id⟩) kept
    exact .bind (spares_minds hquery hs) fun _ t ht => done_minds ht

theorem obeyAll_minds (k : Keeper) (orders : List Order) (kept : Option Handle)
    (hs : s.InCare kept.toList) : Minds (k.obeyAll kept orders) s fun r => r.2.toList := by
  induction orders generalizing kept s with
  | nil => exact done_minds hs
  | cons order orders ih =>
    refine .bind (k.obey_minds kept order hs) fun r t ht => ?_
    exact .bind (ih r.2 ht) fun _ t ht => done_minds ht

/-- The whole service of a keeper: it follows its orders, and gives up what it keeps. -/
def serve (k : Keeper) (orders : List Order) : Program (List Reply) := do
  let (replies, kept) ← k.obeyAll none orders
  release kept
  return replies

/-- **A service** looks after all children, and holds none afterwards. -/
theorem serve_minds (k : Keeper) (orders : List Order) :
    Minds (k.serve orders) .empty fun _ => [] := by
  refine .bind (k.obeyAll_minds orders none Wards.inCare_empty) fun out t ht => ?_
  exact .bind (release_minds ht fun _ => .inl) fun _ t ht => done_minds ht

/-- **A child that is known to be over** stays as it is for the rest of the service. -/
theorem known_for_good {k : Keeper} {orders : List Order} {p q : Program (List Reply)}
    {s t : Wards} (hp : children.Reaches (k.serve orders) .empty p s)
    (hq : children.Reaches p s q t) {h : Handle} {c : Child} {status : ExitStatus}
    (hs : s.Has h c) (hst : c.status = some status) : t.Has h c := by
  have upholds := (k.serve_minds orders).reaches hp
  obtain ⟨w, hw, rfl⟩ := hs
  have hc : w.child.Sound := (upholds.here.always h w hw).child
  exact upholds.keeps (I := fun u => u.Has h w.child)
    (fun _ _ _ _ hask ha hu => children_answers_known hc hst hask ha hu)
    (fun _ _ => children_moves_known hc hst) hq ⟨w, hw, rfl⟩

/-- **No signal after the last**, in every run of a service, whichever orders a keeper follows and
whenever its processes end.  Each signal was sent while the number of the group was not free, and
no interrupt is asked for when it is.  A process whose handle was given up has ended and is reaped,
and when the service is over each has been given up.  And from the moment on when the status of a
process is known, nothing changes it; every look finds the process over, and a termination sends
nothing. -/
theorem no_signal_when_reaped (k : Keeper) (orders : List Order) {q : Program (List Reply)}
    {s : Wards} (hr : children.Reaches (k.serve orders) .empty q s) {h : Handle} {w : Ward}
    (hw : s h = some w) :
    (∀ x ∈ w.child.sent, x.wasFree = false) ∧
    (∀ next, q = .ask (.interrupt h) next → w.child.life ≠ .reaped) ∧
    (w.dropped = true → w.child.life = .reaped ∧ w.child.status.isSome = true) ∧
    (∀ replies, q = .done replies → w.dropped = true) ∧
    ∀ status, w.child.status = some status → ∀ {q' : Program (List Reply)} {t : Wards},
      children.Reaches q s q' t →
      t.Has h w.child ∧
      (∀ {up : Bool} {u : Wards}, children.answers (.isRunning h) t up u → up = false) ∧
      ∀ {result : Except Fault Unit} {u : Wards},
        children.answers (.terminate h) t result u → u.Has h w.child := by
  have met := k.serve_minds orders hr
  have sound : w.Sound := met.always h w hw
  refine ⟨sound.child.sent, ?_, fun hd => ?_, ?_, fun status hst q' t hr' => ?_⟩
  · rintro next rfl
    exact met.2 trivial h w rfl hw
  · have hl : w.child.life = .reaped := sound.dropped hd
    exact ⟨hl, sound.child.reaped.mp hl⟩
  · rintro replies rfl
    by_contra hd
    exact absurd (met.2.held h w hw (eq_false_of_ne_true hd)) List.not_mem_nil
  · have ht : t.Has h w.child := known_for_good hr hr' ⟨w, hw, rfl⟩ hst
    have hask : unreaped.asking (.terminate h) t := nofun
    exact ⟨ht, children_look_known hst ht,
      fun ha => children_answers_known sound.child hst hask ha ht⟩

/-- Processes that run until they are killed. -/
def headstrong : Player children where
  answer
    | _, .sleep _, s => some ((), s)
    | _, .say .., s => some ((), s)
    | _, .spawn _, s =>
      if s ⟨0⟩ = none then some (.ok ⟨0⟩, Function.update s ⟨0⟩ (some .start)) else none
    | _, .isRunning h, s =>
      some (s.use h false fun w => (w.child.isRunning.1, { w with child := w.child.isRunning.2 }))
    | _, .canInterrupt _, s => some (true, s)
    | _, .interrupt h, s =>
      some (s.use h (.ok ()) fun w => (w.child.interrupt.1.mapError (.file ∘ .system),
        { w with child := w.child.interrupt.2 }))
    | _, .terminate h, s =>
      some (s.use h (.ok ()) fun w => (.ok (), { w with child := w.child.terminate }))
    | _, .exitCode h, s => some (s.use h none fun w => (w.child.exitCode, w))
    | _, .processId h, s => some (h.number, s)
    | _, .release h, s => some (s.use h () fun w => ((), ⟨w.child.release, true⟩))
    | _, .isConnected, s => some (true, s)
    | _, .command .., s => some ("", s)
    | _, _, _ => none
  possible := by
    intro β r s s' b hb
    cases r <;> simp only [Option.some.injEq, Prod.mk.injEq, reduceCtorEq] at hb
    case spawn spec =>
      split at hb
      next hn =>
        obtain ⟨rfl, rfl⟩ := Prod.mk.inj (Option.some.inj hb)
        exact ⟨hn, rfl⟩
      next => exact nomatch hb
    case isRunning h => exact .of_use (R := Ward.Serves (.isRunning h)) hb fun w => ⟨rfl, rfl⟩
    case interrupt h => exact .of_use (R := Ward.Serves (.interrupt h)) hb fun w => ⟨rfl, rfl⟩
    case terminate h =>
      exact .of_use (R := Ward.Serves (.terminate h)) hb fun w =>
        ⟨rfl, Child.terminated_terminate _, rfl⟩
    case exitCode h => exact .of_use (R := Ward.Serves (.exitCode h)) hb fun w => ⟨rfl, rfl⟩
    case release h =>
      exact .of_use (R := Ward.Serves (.release h)) hb fun w => ⟨Child.released_release _, rfl⟩
    all_goals exact hb.2.symm

/-- A process that neither quits nor heeds an interrupt is killed before it is reaped, and is left
alone after that. -/
theorem no_signal_when_reaped_headstrong : ∃ (s : Wards) (w : Ward),
    children.Reaches (patient.serve [.start, .stop "update"]) .empty
      (.done [.started true, .stopped]) s ∧ s ⟨0⟩ = some w ∧
    w.child.sent = [⟨.kill, false⟩, ⟨.interrupt, false⟩] ∧
    (∀ x ∈ w.child.sent, x.wasFree = false) ∧
    w.dropped = true ∧ w.child.life = .reaped ∧ w.child.status = some Child.killed ∧
    s.Has ⟨0⟩ w.child := by
  let p := patient.serve [.start, .stop "update"]
  have hp : (headstrong.play 60 p .empty).1 = .done [.started true, .stopped] :=
    Program.eq_done_of_result? (by decide +kernel)
  have hr := hp ▸ headstrong.reaches 60 p .empty
  let c : Child := ⟨.reaped, some Child.killed, [⟨.kill, false⟩, ⟨.interrupt, false⟩]⟩
  have hw : (headstrong.play 60 p .empty).2 ⟨0⟩ = some ⟨c, true⟩ := by decide +kernel
  obtain ⟨timely, -, reaped, dropped, known⟩ := no_signal_when_reaped patient _ hr hw
  exact ⟨_, _, hr, hw, rfl, timely, dropped _ rfl, (reaped rfl).1, rfl,
    (known _ rfl (.here _ _)).1⟩

end Keeper
end ServerWarden
