/-
# Replies that come late

A reply tells nothing but the identifier of the command that it is for.  So a reply that comes in
after its command is over is dropped only as long as no other command has drawn that identifier.  If
one has, the late reply is the first frame for it, and that command returns it
(`late_reply_misdelivered`).

There is no other way for a reply to go astray.  `Answers` says which command each frame of a
history is meant for, by a server that repeats the identifier of what it answers.  `Succeeds` says
that a command was registered under the identifier of another one that was over by then: it had
left, its reply had come, or it was overtaken.  A frame that is delivered goes to the command that
it is meant for, or to a command that succeeds it (`stray_reply_excused`).

The argument is about the entries of the table and not about frames.  An entry under an identifier
is the newest command's that was registered under it, and each older one was over when the newest
was registered (`Run.entry_succeeds`): as long as it was not, its own entry kept the identifier in
use.
-/
import ServerWarden.Proofs.Rcon.Correlation

namespace ServerWarden.Rcon

namespace Traffic

variable {α : Type} {settings : Settings} {source : Nat → Int} {events : List (Event α)}
  {e : Event α} {s s' : Traffic α} {t u : Ticket}

/-! ## 1. What a frame is meant for -/

/-- **A server that answers commands.**  `meant n` is the command that the frame of event `n` is
meant for, if it is meant for one.  That command was sent before, and the frame has its
identifier. -/
structure Answers (meant : Nat → Option Ticket) (events : List (Event α)) : Prop where
  frame : ∀ n t, meant n = some t → ∃ now text delivery f,
    events[n]? = some (.arrived now text delivery) ∧ Frame.read? text = some f ∧
      f.identifier = t.identifier
  sent : ∀ n t, meant n = some t → ∃ deadline, .transmitted t deadline true ∈ events.take n

/-- A command that is over for the table: it left, its reply came in, or it was overtaken. -/
def Over (settings : Settings) (t : Ticket) (events : List (Event α)) : Prop :=
  (∃ e ∈ events, e.leaves? = some t) ∨ firstReply? settings t events ≠ none ∨ Overtaken t events

/-- `u` was registered under the identifier of `t` when `t` was over. -/
def Succeeds (settings : Settings) (u t : Ticket) (events : List (Event α)) : Prop :=
  u.identifier = t.identifier ∧ ∃ earlier e later, events = earlier ++ e :: later ∧
    e.registers? = some u ∧ t ∈ registrations earlier ∧ Over settings t earlier

theorem Succeeds.append (h : Succeeds settings u t events) :
    Succeeds settings u t (events ++ [e]) := by
  obtain ⟨hi, earlier, e', later, rfl, h⟩ := h
  exact ⟨hi, earlier, e', later ++ [e], by simp, h⟩

/-! ## 2. Who comes after whom -/

/-- A command that was registered is under way until it leaves. -/
theorem Run.live_or_left (h : Run source settings events s) (ht : t ∈ registrations events) :
    s.Live t ∨ ∃ e ∈ events, e.leaves? = some t := by
  induction h with
  | start isOpen => exact nomatch ht
  | @step events e s s' hr hs ih =>
    have kept (hl : ∀ t, s.Live t → s'.Live t) (hm : t ∈ registrations events) :
        s'.Live t ∨ ∃ e' ∈ events ++ [e], e'.leaves? = some t :=
      (ih hm).imp (hl t) fun ⟨e', he, hleft⟩ => ⟨e', List.mem_append_left _ he, hleft⟩
    have old (he : e.registers? = none) : t ∈ registrations events :=
      (mem_registrations_append.mp ht).resolve_right (by simp [he])
    cases hs.effect hr.numbered with
    | rests he => exact kept (fun t => (he.live t).mpr) (old he.registers)
    | delivers f p he => exact kept (fun t => (he.live t).mpr) (old he.registers)
    | registers u he =>
      rcases mem_registrations_append.mp ht with hm | hm
      · exact kept (fun t hl => (he.live t).mpr (Or.inl hl)) hm
      · obtain rfl : u = t := Option.some.inj (he.registers.symm.trans hm)
        exact Or.inl ((he.live u).mpr (Or.inr rfl))
    | leaves u he =>
      by_cases heq : t = u
      · exact Or.inr ⟨e, List.mem_append_right _ List.mem_cons_self, heq ▸ he.leaves⟩
      · rcases ih (old he.registers) with hl | ⟨e', hm, hleft⟩
        · exact Or.inl ((he.live t).mpr ⟨hl, heq⟩)
        · exact Or.inr ⟨e', List.mem_append_left _ hm, hleft⟩

/-- A command whose identifier is free is over. -/
theorem Run.over_of_free (h : Run source settings events s) (ht : t ∈ registrations events)
    (hfree : s.client.pending.lookup t.identifier = none) : Over settings t events := by
  rcases h.live_or_left ht with hl | hleft
  · by_cases hr : firstReply? settings t events = none
    · rcases h.owned.kept t hl (List.head?_eq_none_iff.mp hr) with hm | hover
      · exact absurd (hfree.symm.trans (h.owned.lookup hm)) (by simp)
      · exact Or.inr (Or.inr hover)
    · exact Or.inr (Or.inl hr)
  · exact Or.inl hleft

/-- **An entry is the newest command's** that was registered under its identifier, and each other
one was over when that one was registered. -/
theorem Run.entry_succeeds (h : Run source settings events s) (ht : t ∈ registrations events)
    (hu : u.entry ∈ s.client.pending) (hi : u.identifier = t.identifier) :
    u = t ∨ Succeeds settings u t events := by
  induction h with
  | start isOpen => exact nomatch ht
  | @step events e s s' hr hs ih =>
    -- a step that registers nothing makes no new entry
    have keep (he : e.registers? = none) (hold : u.entry ∈ s.client.pending) :
        u = t ∨ Succeeds settings u t (events ++ [e]) := by
      have hm : t ∈ registrations events :=
        (mem_registrations_append.mp ht).resolve_right (by simp [he])
      exact (ih hm hold).imp_right Succeeds.append
    cases hs.effect hr.numbered with
    | rests he => exact keep he.registers (he.pending ▸ hu)
    | delivers f p he =>
      rw [he.pending] at hu
      exact keep he.registers (List.mem_filter.mp hu).1
    | leaves v he =>
      rw [he.client] at hu
      exact keep he.registers (List.mem_filter.mp hu).1
    | registers v he =>
      rw [he.pending] at hu
      rcases List.mem_cons.mp hu with hnew | hold
      · obtain rfl : u = v := Ticket.entry_injective hnew
        rcases mem_registrations_append.mp ht with hm | hm
        · have hover := hr.over_of_free hm (hi ▸ he.free)
          exact Or.inr ⟨hi, events, e, [], rfl, he.registers, hm, hover⟩
        · exact Or.inl (Option.some.inj (he.registers.symm.trans hm))
      · rcases mem_registrations_append.mp ht with hm | hm
        · exact (ih hm hold).imp_right Succeeds.append
        · -- `t` was registered just now, and so its identifier was free
          obtain rfl : v = t := Option.some.inj (he.registers.symm.trans hm)
          exact absurd (he.free.symm.trans (hi ▸ hr.owned.lookup hold)) (by simp)

/-! ## 3. Where a reply may go -/

/-- The step of an event in a run. -/
theorem Run.step_at (h : Run source settings events s) {n : Nat} (hn : events[n]? = some e) :
    ∃ s₁ s₂, Run source settings (events.take n) s₁ ∧ Step source s₁ e s₂ := by
  induction h with
  | start isOpen => simp at hn
  | @step events e' s s' hr hs ih =>
    rcases Nat.lt_or_ge n events.length with hlt | hge
    · rw [List.getElem?_append_left hlt] at hn
      rw [List.take_append_of_le_length hlt.le]
      exact ih hn
    · rw [List.getElem?_append_right hge] at hn
      obtain ⟨h0, rfl⟩ := List.getElem?_eq_some_iff.mp hn
      have hlast : n = events.length := by
        rw [List.length_singleton] at h0
        omega
      subst hlast
      rw [List.take_left]
      simp only [Nat.sub_self, List.getElem_cons_zero]
      exact ⟨s, s', hr, hs⟩

/-- What is delivered goes to an entry of its identifier. -/
theorem Step.delivered {now : Instant} {text : String} {f : Frame} {i : Int} {p : Pending}
    (h : Step source s (.arrived now text (.answered i p)) s') (hf : Frame.read? text = some f) :
    i = f.identifier ∧ s.client.pending.lookup i = some p := by
  generalize he : (Event.arrived now text (.answered i p) : Event α) = e at h
  cases h with
  | arrive text' =>
    obtain ⟨-, rfl, hd⟩ := Event.arrived.inj he
    rcases s.client.dispatch_cases text with ⟨-, hno, -⟩ | ⟨g, q, hg, hp, heq⟩
    · exact absurd hd.symm (hno i p)
    · rw [heq] at hd
      obtain ⟨rfl, rfl⟩ := Delivery.answered.inj hd
      obtain rfl := Option.some.inj (hf.symm.trans (Option.filter_eq_some_iff.mp hg).1)
      exact ⟨rfl, hp⟩
  | _ => exact nomatch he

/-- **A reply goes astray only to a successor.**  In every run with a server that answers commands
under their identifiers, a frame that is delivered goes to the command that it is meant for, or to
another one that was registered under the same identifier when that command was over. -/
theorem stray_reply_excused (h : Run source settings events s) {meant : Nat → Option Ticket}
    (ha : Answers meant events) {n : Nat} {now : Instant} {text : String} {i : Int} {p : Pending}
    (hm : meant n = some t) (he : events[n]? = some (.arrived now text (.answered i p))) :
    (i, p) = t.entry ∨ Succeeds settings ⟨i, p.token, p.slot⟩ t (events.take n) := by
  obtain ⟨now', text', delivery, f, he', hf, hi⟩ := ha.frame n t hm
  obtain ⟨-, rfl, -⟩ := Event.arrived.inj (Option.some.inj (he'.symm.trans he))
  obtain ⟨deadline, hsent⟩ := ha.sent n t hm
  obtain ⟨s₁, s₂, hr, hs⟩ := h.step_at he
  obtain ⟨rfl, hp⟩ := hs.delivered hf
  let u : Ticket := ⟨f.identifier, p.token, p.slot⟩
  have ht : t ∈ registrations (events.take n) := hr.told.sent t deadline true hsent
  have hu : u.entry ∈ s₁.client.pending := mem_of_lookup_eq_some hp
  exact (hr.entry_succeeds ht hu hi).imp_left (congrArg Ticket.entry)

/-! ## 4. A reply that goes astray -/

/-- A frame for the identifier seven that comes late. -/
def lateFrame : String := "\x7b\"Identifier\":7,\"Message\":\"late\"\x7d"

/-- A command that drew the identifier seven times out and leaves, another one draws it, and then
the reply to the first comes in. -/
def lateEvents : List (Event Unit) :=
  [.begun (.ofSecs 1) (.registered (seventh 0)),
    .transmitted (seventh 0) ⟨1000000000⟩ true,
    .passed ⟨1001000000⟩,
    .awaited (seventh 0) (.leaving (seventh 0) ""),
    .returned (seventh 0) "",
    .begun (.ofSecs 5) (.registered (seventh 1)),
    .transmitted (seventh 1) ⟨6001000000⟩ true,
    .arrived ⟨1001000000⟩ lateFrame (.answered 7 ⟨1, 1⟩),
    .awaited (seventh 1) (.leaving (seventh 1) "late"),
    .returned (seventh 1) "late"]

/-- The late frame is meant for the first command. -/
def meantForFirst (n : Nat) : Option Ticket := if n = 7 then some (seventh 0) else none

theorem run_late : ∃ s, Run sevens quietSettings lateEvents s := by
  have r₀ : Run sevens quietSettings [] (initial quietSettings true : Traffic Unit) := .start true
  have r₁ := r₀.step (e := .begun (.ofSecs 1) (.registered (seventh 0)))
    (.begin (show Client.open? _ _ 2 _ _ _ = some (_, 2, _) from rfl))
  have r₂ := r₁.step (.transmit (t := seventh 0) ⟨1000000000⟩ true (by decide +kernel))
  have r₃ := r₂.step (e := .passed ⟨1001000000⟩) (.pass (by decide +kernel))
  have r₄ := r₃.step (@Step.await _ sevens _ (seventh 0) ⟨1000000000⟩ (by decide +kernel))
  have r₅ := r₄.step (@Step.leave _ sevens _ (seventh 0) "" (by decide +kernel))
  have r₆ := r₅.step (e := .begun (.ofSecs 5) (.registered (seventh 1)))
    (.begin (show Client.open? _ _ 1 _ _ _ = some (_, 3, _) from rfl))
  have r₇ := r₆.step (.transmit (t := seventh 1) ⟨6001000000⟩ true (by decide +kernel))
  have r₈ := r₇.step (.arrive _ lateFrame)
  have r₉ := r₈.step (@Step.await _ sevens _ (seventh 1) ⟨6001000000⟩ (by decide +kernel))
  have r₁₀ := r₉.step (@Step.leave _ sevens _ (seventh 1) "late" (by decide +kernel))
  exact ⟨_, r₁₀⟩

theorem answers_late : Answers meantForFirst lateEvents where
  frame n t h := by
    obtain ⟨rfl, h⟩ := Option.ite_none_right_eq_some.mp h
    obtain rfl := Option.some.inj h
    exact ⟨_, _, _, ⟨7, "late", none⟩, rfl, by decide +kernel, rfl⟩
  sent n t h := by
    obtain ⟨rfl, h⟩ := Option.ite_none_right_eq_some.mp h
    obtain rfl := Option.some.inj h
    exact ⟨⟨1000000000⟩, List.mem_cons_of_mem _ List.mem_cons_self⟩

/-- **A late reply may go to another command.**  A command has timed out and returned nothing, and
the reply to it is what another command returns. -/
theorem late_reply_misdelivered : ∃ (s : Traffic Unit) (now : Instant),
    Run sevens quietSettings lateEvents s ∧ Answers meantForFirst lateEvents ∧
    .returned (seventh 0) "" ∈ lateEvents.take 7 ∧
    meantForFirst 7 = some (seventh 0) ∧
    lateEvents[7]? = some (.arrived now lateFrame (.answered 7 ⟨(seventh 1).token, 1⟩)) ∧
    .returned (seventh 1) "late" ∈ lateEvents := by
  obtain ⟨s, hs⟩ := run_late
  exact ⟨s, _, hs, answers_late, by simp [lateEvents], rfl, rfl, by simp [lateEvents]⟩

/-- It goes to one that succeeds the first. -/
theorem stray_reply_excused_late :
    meantForFirst 7 = some (seventh 0) ∧
    Succeeds quietSettings (seventh 1) (seventh 0) (lateEvents.take 7) := by
  obtain ⟨s, hs⟩ := run_late
  have excused := stray_reply_excused (n := 7) hs answers_late rfl rfl
  exact ⟨rfl, excused.resolve_left (by decide)⟩

end Traffic
end ServerWarden.Rcon
