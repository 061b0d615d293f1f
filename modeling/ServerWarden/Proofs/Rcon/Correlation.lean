/-
# Each command gets its own reply

A command returns the first frame with its identifier that came in after its registration, or
nothing.  It returns nothing only if its frame was not queued, its time was over before such a frame
came, or it was given up.  No frame goes to two commands.

Two invariants of a run carry this.  `Heard` ties the answers that have come to the history: what
lies in the slot of a command under way is the message of the first frame for it, and it lies there
from the moment on that the frame came in.  `Told` ties the result of a command to its first frame
and to its deadline, from the moment on that the result is settled; later frames come later than the
deadline.

There is one exception, and it is stated as one.  Tokens have 64 bits, so the entry of a command may
be taken out by another one that was registered at least 2 ^ 64 registrations before and is still
under way (`Overtaken`).  In a run of fewer registrations there is none, by
`Numbered.not_overtaken`.
-/
import ServerWarden.Proofs.Rcon.Table

namespace ServerWarden.Rcon

namespace Traffic

variable {α : Type} {settings : Settings} {source : Nat → Int} {events : List (Event α)}
  {e : Event α} {s s' : Traffic α} {t u : Ticket}

/-! ## 1. What lies in a slot -/

/-- The frame that a command got: the first one for it, and it went to the command's entry. -/
structure Got (settings : Settings) (events : List (Event α)) (t : Ticket) (reply : Reply α) :
    Prop where
  first : firstReply? settings t events = some reply
  delivered : reply.delivery = .answered t.identifier ⟨t.token, t.slot⟩

theorem Got.append {reply : Reply α} (h : Got settings events t reply)
    (ht : t ∈ registrations events) : Got settings (events ++ [e]) t reply :=
  ⟨firstReply?_append_of_some ht h.first, h.delivered⟩

/-- What has come for a command under way is the first frame for it, and the first frame for it has
come. -/
structure Heard (settings : Settings) (events : List (Event α)) (s : Traffic α) : Prop where
  slots : ∀ entry ∈ s.client.answers, ∃ t ∈ registrations events, t.slot = entry.1
  answer : ∀ t text, s.Live t → s.client.answers.lookup t.slot = some text →
    ∃ reply, Got settings events t reply ∧ reply.frame.message = text
  fetched : ∀ t reply, s.Live t → firstReply? settings t events = some reply →
    s.client.answers.lookup t.slot = some reply.frame.message ∨ Overtaken t events

theorem slots_append {answers : List (Nat × String)}
    (h : ∀ entry ∈ answers, ∃ t ∈ registrations events, t.slot = entry.1) :
    ∀ entry ∈ answers, ∃ t ∈ registrations (events ++ [e]), t.slot = entry.1 := by
  intro entry hm
  obtain ⟨t, ht, hs⟩ := h entry hm
  exact ⟨t, mem_registrations_append.mpr (Or.inl ht), hs⟩

namespace Heard

theorem initial (settings : Settings) (isOpen : Bool) :
    Heard settings [] (Traffic.initial settings isOpen : Traffic α) where
  slots := nofun
  answer t _ h := by
    obtain ⟨call, hc, -⟩ := h
    exact nomatch hc
  fetched t _ h := by
    obtain ⟨call, hc, -⟩ := h
    exact nomatch hc

/-- Of a command that got its first frame before, nothing changes. -/
theorem fetched_of_some (hh : Heard settings events s) (hl : s.Live t)
    (ht : t ∈ registrations events) {old reply : Reply α}
    (hold : firstReply? settings t events = some old)
    (hf : firstReply? settings t (events ++ [e]) = some reply) :
    s.client.answers.lookup t.slot = some reply.frame.message ∨ Overtaken t (events ++ [e]) := by
  have hsame : old = reply :=
    Option.some.inj ((firstReply?_append_of_some ht hold).symm.trans hf)
  subst hsame
  rcases hh.fetched t old hl hold with ha | hover
  · exact Or.inl ha
  · exact Or.inr (hover.append ht)

/-- A command that hears nothing new keeps what it has. -/
theorem quiet (hh : Heard settings events s) (hl : s.Live t) (ht : t ∈ registrations events)
    {answer : Option String} (ha : answer = s.client.answers.lookup t.slot)
    (hr : e.reply? settings t.identifier = none) :
    (∀ text, answer = some text →
      ∃ reply, Got settings (events ++ [e]) t reply ∧ reply.frame.message = text) ∧
    ∀ reply, firstReply? settings t (events ++ [e]) = some reply →
      answer = some reply.frame.message ∨ Overtaken t (events ++ [e]) := by
  subst ha
  refine ⟨fun text hx => ?_, fun reply hf => ?_⟩
  · obtain ⟨reply, hgot, hm⟩ := hh.answer t text hl hx
    exact ⟨reply, hgot.append ht, hm⟩
  · cases hold : firstReply? settings t events with
    | none => exact absurd ((firstReply?_append_of_none ht hold).symm.trans hf) (by simp [hr])
    | some old => exact hh.fetched_of_some hl ht hold hf

theorem rests (hh : Heard settings events s) (ho : Owned settings events s)
    (hn : Numbered settings events s) (he : Rests settings s e s') :
    Heard settings (events ++ [e]) s' where
  slots := he.answers ▸ slots_append hh.slots
  answer t text h hx := by
    have hl := (he.live t).mp h
    obtain ⟨reply, hgot, hm⟩ := hh.answer t text hl (he.answers ▸ hx)
    exact ⟨reply, hgot.append (hn.live_registered hl), hm⟩
  fetched t reply h hf := by
    have hl := (he.live t).mp h
    have ht := hn.live_registered hl
    rw [he.answers]
    cases hold : firstReply? settings t events with
    | some old => exact hh.fetched_of_some hl ht hold hf
    | none =>
      -- a frame that comes in for `t` would meet its entry
      have hr := (firstReply?_append_of_none ht hold).symm.trans hf
      rcases ho.kept t hl (List.head?_eq_none_iff.mp hold) with hm | hover
      · exact absurd ((he.reply _ _ hr).symm.trans (ho.lookup hm)) (by simp)
      · exact Or.inr (hover.append ht)

theorem registers (hh : Heard settings events s) (hn : Numbered settings events s)
    (he : Registers settings t s e s') : Heard settings (events ++ [e]) s' := by
  have hnew : t ∉ registrations events := fun hm =>
    absurd (hn.slot_lt hm) (he.slot ▸ Nat.lt_irrefl _)
  have hnone : s.client.answers.lookup t.slot = none := by
    refine List.lookup_eq_none_iff.mpr fun entry hm => bne_iff_ne.mpr fun heq => ?_
    obtain ⟨v, hv, hs⟩ := hh.slots entry hm
    exact absurd (hn.slot_lt hv) (by rw [hs, ← heq, he.slot]; exact Nat.lt_irrefl _)
  have hfirst : firstReply? settings t (events ++ [e]) = none :=
    List.head?_eq_none_iff.mpr (replies_append_of_notMem hnew (he.reply _))
  exact {
    slots := he.answers ▸ slots_append hh.slots
    answer := fun u text h hx => by
      rw [he.answers] at hx
      rcases (he.live u).mp h with hl | rfl
      · exact (hh.quiet hl (hn.live_registered hl) rfl (he.reply _)).1 text hx
      · exact absurd (hnone.symm.trans hx) (by simp)
    fetched := fun u reply h hf => by
      rw [he.answers]
      rcases (he.live u).mp h with hl | rfl
      · exact (hh.quiet hl (hn.live_registered hl) rfl (he.reply _)).2 reply hf
      · exact absurd (hfirst.symm.trans hf) (by simp) }

theorem delivers {f : Frame} {p : Pending} (hh : Heard settings events s)
    (ho : Owned settings events s) (hn : Numbered settings events s)
    (he : Delivers settings f p s e s') : Heard settings (events ++ [e]) s' := by
  -- the command whose entry the frame meets
  let owner : Ticket := ⟨f.identifier, p.token, p.slot⟩
  have hentry : owner.entry ∈ s.client.pending := mem_of_lookup_eq_some he.entry
  have howner := hn.live_registered (ho.owner owner hentry)
  have hnone : firstReply? settings owner events = none :=
    List.head?_eq_none_iff.mpr (ho.unheard owner hentry)
  have hgot : Got settings (events ++ [e]) owner ⟨s.now, f, .answered f.identifier p⟩ :=
    ⟨(firstReply?_append_of_none howner hnone).trans he.reply, rfl⟩
  have hself : s'.client.answers.lookup owner.slot = some f.message := by
    rw [he.answers]
    exact List.lookup_cons_self
  have hother : ∀ t, s.Live t → t ≠ owner →
      s'.client.answers.lookup t.slot = s.client.answers.lookup t.slot := by
    intro t hl hne
    have hslot : (t.slot == p.slot) = false := beq_eq_false_iff_ne.mpr fun heq =>
      hne (hn.eq_of_slot (hn.live_registered hl) howner heq)
    rw [he.answers, List.lookup_cons, hslot]
  exact {
    slots := fun entry hm => by
      rw [he.answers] at hm
      rcases List.mem_cons.mp hm with rfl | hm
      · exact ⟨owner, mem_registrations_append.mpr (Or.inl howner), rfl⟩
      · exact slots_append hh.slots entry hm
    answer := fun t text h hx => by
      have hl := (he.live t).mp h
      by_cases heq : t = owner
      · subst heq
        exact ⟨_, hgot, Option.some.inj (hself.symm.trans hx)⟩
      · obtain ⟨reply, hgot, hm⟩ := hh.answer t text hl (hother t hl heq ▸ hx)
        exact ⟨reply, hgot.append (hn.live_registered hl), hm⟩
    fetched := fun t reply h hf => by
      have hl := (he.live t).mp h
      have ht := hn.live_registered hl
      by_cases heq : t = owner
      · subst heq
        obtain rfl := Option.some.inj (hgot.first.symm.trans hf)
        exact Or.inl hself
      · rw [hother t hl heq]
        cases hold : firstReply? settings t events with
        | some old => exact hh.fetched_of_some hl ht hold hf
        | none =>
          -- the frame would have met the entry of `t` instead
          have hr := (firstReply?_append_of_none ht hold).symm.trans hf
          rcases ho.kept t hl (List.head?_eq_none_iff.mp hold) with hm | hover
          · refine absurd ?_ heq
            have hi : t.identifier = f.identifier := by
              by_contra hi
              exact absurd ((he.other _ hi).symm.trans hr) (by simp)
            have hp := (ho.lookup hm).symm.trans (hi ▸ he.entry)
            obtain rfl := Option.some.inj hp
            cases t
            cases hi
            rfl
          · exact Or.inr (hover.append ht) }

theorem leaves (hh : Heard settings events s) (hn : Numbered settings events s)
    (he : Leaves settings u s e s') : Heard settings (events ++ [e]) s' := by
  have ha : s'.client.answers = s.client.answers.filter (·.1 != u.slot) := by
    rw [he.client]
    rfl
  have hkeep : ∀ t, s.Live t → t ≠ u →
      s'.client.answers.lookup t.slot = s.client.answers.lookup t.slot := by
    intro t hl hne
    have hslot : t.slot ≠ u.slot := fun heq =>
      hne (hn.eq_of_slot (hn.live_registered hl) (hn.live_registered he.mem) heq)
    rw [ha]
    exact lookup_filter_ne hslot
  exact {
    slots := fun entry hm => by
      rw [ha] at hm
      exact slots_append hh.slots entry (List.mem_filter.mp hm).1
    answer := fun t text h hx => by
      obtain ⟨hl, hne⟩ := (he.live t).mp h
      exact (hh.quiet hl (hn.live_registered hl) (hkeep t hl hne) (he.reply _)).1 text hx
    fetched := fun t reply h hf => by
      obtain ⟨hl, hne⟩ := (he.live t).mp h
      exact (hh.quiet hl (hn.live_registered hl) (hkeep t hl hne) (he.reply _)).2 reply hf }

theorem step (hh : Heard settings events s) (ho : Owned settings events s)
    (hn : Numbered settings events s) (h : Step source s e s') :
    Heard settings (events ++ [e]) s' := by
  cases h.effect hn with
  | rests he => exact hh.rests ho hn he
  | registers t he => exact hh.registers hn he
  | delivers f p he => exact hh.delivers ho hn he
  | leaves t he => exact hh.leaves hn he

end Heard

theorem Run.heard (h : Run source settings events s) : Heard settings events s := by
  induction h with
  | start isOpen => exact .initial settings isOpen
  | step hr hs ih => exact ih.step hr.owned hr.numbered hs

/-! ## 2. What a command makes of it -/

/-- What is known of a settled result.  It is empty, or the message of the frame that the command
got.  If the command was waiting until a deadline, it is the message of the first frame for it, as
long as that frame did not come after the deadline. -/
structure Settled (settings : Settings) (events : List (Event α)) (now : Instant) (t : Ticket)
    (result : String) : Prop where
  got : result = Sending.noAnswer ∨
    ∃ reply, Got settings events t reply ∧ reply.frame.message = result
  timely : ∀ deadline, .transmitted t deadline true ∈ events →
    Overtaken t events ∨
    (firstReply? settings t events = none ∧ deadline.wake ≤ now) ∨
    ∃ reply, firstReply? settings t events = some reply ∧
      (reply.frame.message = result ∨ deadline.wake ≤ reply.time)

/-- A settled result stays one, whatever comes later. -/
theorem Settled.append {now now' : Instant} {result : String}
    (h : Settled settings events now t result) (ht : t ∈ registrations events)
    (hsent : ∀ deadline queued, e ≠ .transmitted t deadline queued) (hnow : now ≤ now')
    (htime : ∀ reply, e.reply? settings t.identifier = some reply → reply.time = now) :
    Settled settings (events ++ [e]) now' t result where
  got := h.got.imp_right fun ⟨reply, hg, hm⟩ => ⟨reply, hg.append ht, hm⟩
  timely deadline hd := by
    have hold : .transmitted t deadline true ∈ events := by
      rcases List.mem_append.mp hd with hd | hd
      · exact hd
      · exact absurd (List.mem_singleton.mp hd).symm (hsent _ _)
    rcases h.timely deadline hold with hover | ⟨hnone, hwake⟩ | ⟨reply, hf, hr⟩
    · exact Or.inl (hover.append ht)
    · right
      rw [firstReply?_append_of_none ht hnone]
      cases hr : e.reply? settings t.identifier with
      | none => exact Or.inl ⟨rfl, Nat.le_trans hwake hnow⟩
      | some reply => exact Or.inr ⟨reply, rfl, Or.inr (htime reply hr ▸ hwake)⟩
    · exact Or.inr (Or.inr ⟨reply, firstReply?_append_of_some ht hf, hr⟩)

/-- Where a waiting command stands after it ran. -/
theorem await_cases (c : Client α) (now : Instant) (t : Ticket) (deadline : Instant) :
    (∃ text, c.answers.lookup t.slot = some text ∧
      (Sending.await c now t deadline).1 = .leaving t text) ∨
    (c.answers.lookup t.slot = none ∧
      (((∀ entry ∈ c.pending, entry.2.slot ≠ t.slot) ∨ deadline.wake ≤ now) ∧
        (Sending.await c now t deadline).1 = .leaving t Sending.noAnswer ∨
      (Sending.await c now t deadline).1 = .waiting t deadline)) := by
  unfold Sending.await Client.receive
  cases ha : c.answers.lookup t.slot with
  | some text => exact Or.inl ⟨text, rfl, rfl⟩
  | none =>
    refine Or.inr ⟨rfl, ?_⟩
    cases hp : c.pending.any fun e => e.2.slot == t.slot with
    | false => exact Or.inl ⟨Or.inl (by simpa using hp), rfl⟩
    | true =>
      simp only [if_true]
      split
      · next hle => exact Or.inl ⟨Or.inr hle, rfl⟩
      · exact Or.inr rfl

/-- How far each command has come, and what its result is once it is settled. -/
structure Told (settings : Settings) (events : List (Event α)) (s : Traffic α) : Prop where
  sent : ∀ t deadline queued, .transmitted t deadline queued ∈ events → t ∈ registrations events
  unsent : ∀ t, .registered t ∈ s.calls →
    ∀ deadline queued, .transmitted t deadline queued ∉ events
  deadline : ∀ t deadline, .waiting t deadline ∈ s.calls →
    ∀ deadline' queued, .transmitted t deadline' queued ∈ events → deadline' = deadline
  leaving : ∀ t result, .leaving t result ∈ s.calls → Settled settings events s.now t result
  gone : ∀ t result, .returned t result ∈ events → t ∈ registrations events ∧ ¬ s.Live t
  returned : ∀ t result, .returned t result ∈ events → Settled settings events s.now t result

theorem mem_append_singleton {x : Event α} (h : x ∈ events ++ [e]) (hne : e ≠ x) : x ∈ events :=
  (List.mem_append.mp h).resolve_right fun hm => hne (List.mem_singleton.mp hm).symm

theorem Step.now_le (h : Step source s e s') : s.now ≤ s'.now := by
  cases h with
  | pass hle => exact hle
  | _ => exact Nat.le_refl _

theorem Step.reply_time {i : Int} {reply : Reply α} (h : Step source s e s')
    (hr : e.reply? settings i = some reply) : reply.time = s.now := by
  cases h with
  | arrive text =>
    obtain ⟨f, -, rfl⟩ := Option.map_eq_some_iff.mp hr
    rfl
  | _ => exact nomatch hr

namespace Told

theorem initial (settings : Settings) (isOpen : Bool) :
    Told settings [] (Traffic.initial settings isOpen : Traffic α) where
  sent := nofun
  unsent _ h := absurd h (Finset.notMem_empty _)
  deadline _ _ h := absurd h (Finset.notMem_empty _)
  leaving _ _ h := absurd h (Finset.notMem_empty _)
  gone := nofun
  returned := nofun

/-- A step after which no command stands where it did not stand before. -/
theorem keep (ht : Told settings events s) (hn : Numbered settings events s)
    (h : Step source s e s') (hcalls : ∀ call ∈ s'.calls, call ∈ s.calls)
    (hsent : ∀ t deadline queued, e ≠ .transmitted t deadline queued)
    (hreturned : ∀ t result, e = .returned t result → .leaving t result ∈ s.calls ∧ ¬ s'.Live t) :
    Told settings (events ++ [e]) s' := by
  have hlive : ∀ t, s'.Live t → s.Live t := fun t ⟨call, hc, hct⟩ => ⟨call, hcalls call hc, hct⟩
  have settled : ∀ {t result}, t ∈ registrations events → Settled settings events s.now t result →
      Settled settings (events ++ [e]) s'.now t result := fun hm hs =>
    hs.append hm (hsent _) h.now_le fun _ hr => h.reply_time hr
  have result : ∀ t result, .returned t result ∈ events ++ [e] →
      t ∈ registrations events ∧ ¬ s'.Live t ∧ Settled settings events s.now t result := by
    intro t result hm
    rcases List.mem_append.mp hm with hm | hm
    · obtain ⟨hreg, hgone⟩ := ht.gone t result hm
      exact ⟨hreg, fun hl => hgone (hlive t hl), ht.returned t result hm⟩
    · obtain ⟨hc, hgone⟩ := hreturned t result (List.mem_singleton.mp hm).symm
      exact ⟨hn.live_registered ⟨_, hc, rfl⟩, hgone, ht.leaving t result hc⟩
  exact {
    sent := fun t d b hm => mem_registrations_append.mpr
      (Or.inl (ht.sent t d b (mem_append_singleton hm (hsent t d b))))
    unsent := fun t hc d b hm =>
      ht.unsent t (hcalls _ hc) d b (mem_append_singleton hm (hsent t d b))
    deadline := fun t d hc d' b hm =>
      ht.deadline t d (hcalls _ hc) d' b (mem_append_singleton hm (hsent t d' b))
    leaving := fun t r hc => settled (hn.live_registered ⟨_, hcalls _ hc, rfl⟩)
      (ht.leaving t r (hcalls _ hc))
    gone := fun t r hm => by
      obtain ⟨hreg, hgone, -⟩ := result t r hm
      exact ⟨mem_registrations_append.mpr (Or.inl hreg), hgone⟩
    returned := fun t r hm => by
      obtain ⟨hreg, -, hs⟩ := result t r hm
      exact settled hreg hs }

/-- A step of one command, to a place of which its result or its deadline is known. -/
theorem replace (ht : Told settings events s) (hn : Numbered settings events s)
    {call next : Sending} (hc : call ∈ s.calls) (hct : call.ticket? = some t)
    (h : Step source s e (s.replace call next))
    (hsent : ∀ u deadline queued, e = .transmitted u deadline queued → u = t)
    (hreturned : ∀ u result, e ≠ .returned u result)
    (hregistered : next ≠ .registered t)
    (hdeadline : ∀ deadline, next = .waiting t deadline →
      ∀ deadline' queued, .transmitted t deadline' queued ∈ events ++ [e] → deadline' = deadline)
    (hleaving : ∀ result, next = .leaving t result → Settled settings (events ++ [e]) s.now t result)
    (hnext : next.ticket? = some t) : Told settings (events ++ [e]) (s.replace call next) := by
  have old : ∀ d ∈ (s.replace call next).calls, d = next ∨ d ∈ s.calls ∧ d.ticket? ≠ some t :=
    fun d hd => hct ▸ hn.mem_replace hc hd
  have moved : ∀ {u : Ticket}, some u ≠ some t → ∀ d b, e ≠ .transmitted u d b :=
    fun hne d b he => hne (congrArg some (hsent _ d b he))
  have mine : ∀ {u : Ticket}, next.ticket? = some u → u = t :=
    fun hu => Option.some.inj (hu.symm.trans hnext)
  have settled : ∀ {u result}, u ≠ t → u ∈ registrations events →
      Settled settings events s.now u result →
      Settled settings (events ++ [e]) s.now u result := fun hne hm hs =>
    hs.append hm (moved fun heq => hne (Option.some.inj heq)) (Nat.le_refl _)
      fun _ hr => h.reply_time hr
  exact {
    sent := fun u d b hm => by
      refine mem_registrations_append.mpr (Or.inl ?_)
      rcases List.mem_append.mp hm with hm | hm
      · exact ht.sent u d b hm
      · obtain rfl := hsent u d b (List.mem_singleton.mp hm).symm
        exact hn.live_registered ⟨call, hc, hct⟩
    unsent := fun u hu d b hm => by
      rcases old _ hu with heq | ⟨hu, hne⟩
      · obtain rfl : u = t := mine (heq ▸ rfl)
        exact hregistered heq.symm
      · exact ht.unsent u hu d b (mem_append_singleton hm (moved hne d b))
    deadline := fun u d hu d' b hm => by
      rcases old _ hu with heq | ⟨hu, hne⟩
      · obtain rfl : u = t := mine (heq ▸ rfl)
        exact hdeadline d heq.symm d' b hm
      · exact ht.deadline u d hu d' b (mem_append_singleton hm (moved hne d' b))
    leaving := fun u r hu => by
      rcases old _ hu with heq | ⟨hu, hne⟩
      · obtain rfl : u = t := mine (heq ▸ rfl)
        exact hleaving r heq.symm
      · exact settled (fun heq => hne (congrArg some heq)) (hn.live_registered ⟨_, hu, rfl⟩)
          (ht.leaving u r hu)
    gone := fun u r hm => by
      obtain ⟨hreg, hgone⟩ := ht.gone u r (mem_append_singleton hm (hreturned u r))
      refine ⟨mem_registrations_append.mpr (Or.inl hreg), fun hl => hgone ?_⟩
      exact (live_replace hc (hnext.trans hct.symm)).mp hl
    returned := fun u r hm => by
      have hm := mem_append_singleton hm (hreturned u r)
      obtain ⟨hreg, hgone⟩ := ht.gone u r hm
      refine settled (fun heq => hgone ?_) hreg (ht.returned u r hm)
      exact heq ▸ ⟨call, hc, hct⟩ }

theorem register (ht : Told settings events s) (hn : Numbered settings events s)
    (he : Registers settings t s e s') (h : Step source s e s')
    (hcalls : s'.calls = s.calls ∪ {.registered t})
    (hsent : ∀ u deadline queued, e ≠ .transmitted u deadline queued)
    (hreturned : ∀ u result, e ≠ .returned u result) : Told settings (events ++ [e]) s' := by
  have hnew : t ∉ registrations events := fun hm =>
    absurd (hn.slot_lt hm) (he.slot ▸ Nat.lt_irrefl _)
  have old : ∀ d ∈ s'.calls, d ∈ s.calls ∨ d = .registered t := by
    intro d hd
    rw [hcalls] at hd
    exact (Finset.mem_union.mp hd).imp_right Finset.mem_singleton.mp
  have settled : ∀ {u result}, u ∈ registrations events →
      Settled settings events s.now u result →
      Settled settings (events ++ [e]) s'.now u result := fun hm hs =>
    hs.append hm (hsent _) h.now_le fun _ hr => h.reply_time hr
  exact {
    sent := fun u d b hm => mem_registrations_append.mpr
      (Or.inl (ht.sent u d b (mem_append_singleton hm (hsent u d b))))
    unsent := fun u hu d b hm => by
      have hm := mem_append_singleton hm (hsent u d b)
      rcases old _ hu with hu | heq
      · exact ht.unsent u hu d b hm
      · obtain rfl := Sending.registered.inj heq
        exact hnew (ht.sent u d b hm)
    deadline := fun u d hu d' b hm =>
      ht.deadline u d ((old _ hu).resolve_right nofun) d' b
        (mem_append_singleton hm (hsent u d' b))
    leaving := fun u r hu => by
      have hu := (old _ hu).resolve_right nofun
      exact settled (hn.live_registered ⟨_, hu, rfl⟩) (ht.leaving u r hu)
    gone := fun u r hm => by
      obtain ⟨hreg, hgone⟩ := ht.gone u r (mem_append_singleton hm (hreturned u r))
      refine ⟨mem_registrations_append.mpr (Or.inl hreg), fun hl => ?_⟩
      rcases (he.live u).mp hl with hl | rfl
      · exact hgone hl
      · exact hnew hreg
    returned := fun u r hm => by
      have hm := mem_append_singleton hm (hreturned u r)
      exact settled (ht.gone u r hm).1 (ht.returned u r hm) }

/-- **A result is settled well.** -/
theorem await_settled (ht : Told settings events s) (hh : Heard settings events s)
    (ho : Owned settings events s) {deadline : Instant} (hc : .waiting t deadline ∈ s.calls)
    {result : String} (hr : (Sending.await s.client s.now t deadline).1 = .leaving t result) :
    Settled settings events s.now t result := by
  have hl : s.Live t := ⟨_, hc, rfl⟩
  rcases await_cases s.client s.now t deadline with ⟨text, ha, hn⟩ | ⟨hnone, ⟨hwhy, hn⟩ | hn⟩
  · obtain rfl : text = result := by simpa using hn.symm.trans hr
    obtain ⟨reply, hgot, rfl⟩ := hh.answer t text hl ha
    exact ⟨Or.inr ⟨reply, hgot, rfl⟩, fun _ _ => Or.inr (Or.inr ⟨reply, hgot.first, Or.inl rfl⟩)⟩
  · obtain rfl : Sending.noAnswer = result := by simpa using hn.symm.trans hr
    refine ⟨Or.inl rfl, fun deadline' hd => ?_⟩
    obtain rfl := ht.deadline t deadline hc deadline' true hd
    cases hf : firstReply? settings t events with
    | some reply =>
      have hover := (hh.fetched t reply hl hf).resolve_left fun ha =>
        absurd (hnone.symm.trans ha) (by simp)
      exact Or.inl hover
    | none =>
      rcases hwhy with hlost | hwake
      · have hover := (ho.kept t hl (List.head?_eq_none_iff.mp hf)).resolve_left fun hm =>
          hlost _ hm rfl
        exact Or.inl hover
      · exact Or.inr (Or.inl ⟨rfl, hwake⟩)
  · exact absurd (hn.symm.trans hr) (by simp)

theorem step (ht : Told settings events s) (hh : Heard settings events s)
    (ho : Owned settings events s) (hn : Numbered settings events s) (h : Step source s e s') :
    Told settings (events ++ [e]) s' := by
  have whole := h
  cases h with
  | pass _ => exact ht.keep hn whole (fun _ hc => hc) nofun nofun
  | switch isOpen => exact ht.keep hn whole (fun _ hc => hc) nofun nofun
  | listen listener => exact ht.keep hn whole (fun _ hc => hc) nofun nofun
  | arrive text => exact ht.keep hn whole (fun _ hc => hc) nofun nofun
  | @begin timeout fuel drawn opening client hopen =>
    rcases Client.open?_cases hopen with ⟨hopening, rfl⟩ | ⟨t, n, rfl, -⟩
    · obtain ⟨hno, -⟩ := begun_unregistered (α := α) timeout hopening
      refine ht.keep hn whole (fun call hc => ?_) nofun nofun
      exact (Finset.mem_union.mp hc).resolve_right fun hm => by simp [hno] at hm
    · exact ht.register hn (whole.registers hn rfl) whole rfl nofun nofun
  | @transmit t deadline queued hc =>
    refine ht.replace hn hc rfl whole (fun u d b he => (Event.transmitted.inj he).1.symm) nofun
      ?_ ?_ ?_ (ticket?_transmitted _ _ _)
    · cases queued <;> exact nofun
    · intro d hd d' b hm
      cases queued with
      | false => exact nomatch hd
      | true =>
        obtain ⟨-, rfl⟩ := Sending.waiting.inj hd
        rcases List.mem_append.mp hm with hm | hm
        · exact absurd hm (ht.unsent t hc d' b)
        · exact (Event.transmitted.inj (List.mem_singleton.mp hm)).2.1
    · intro result hr
      cases queued with
      | true => exact nomatch hr
      | false =>
        obtain ⟨-, rfl⟩ := Sending.leaving.inj hr
        refine ⟨Or.inl rfl, fun d hm => ?_⟩
        rcases List.mem_append.mp hm with hm | hm
        · exact absurd hm (ht.unsent t hc d true)
        · exact absurd (Event.transmitted.inj (List.mem_singleton.mp hm)).2.2 (by decide)
  | @await t deadline hc =>
    refine ht.replace hn hc rfl whole nofun nofun ?_ ?_ ?_ (ticket?_await _ _ _ _)
    · rcases await_cases s.client s.now t deadline with ⟨text, -, hn⟩ | ⟨-, ⟨-, hn⟩ | hn⟩ <;>
        simp [hn]
    · intro d hd d' b hm
      have hsame : d = deadline := by
        rcases await_cases s.client s.now t deadline with ⟨text, -, hn⟩ | ⟨-, ⟨-, hn⟩ | hn⟩
        · exact absurd (hn.symm.trans hd) (by simp)
        · exact absurd (hn.symm.trans hd) (by simp)
        · exact (Sending.waiting.inj (hn.symm.trans hd)).2.symm
      exact (ht.deadline t deadline hc d' b (mem_append_singleton hm nofun)).trans hsame.symm
    · intro result hr
      exact (ht.await_settled hh ho hc hr).append (hn.live_registered ⟨_, hc, rfl⟩) nofun
        (Nat.le_refl _) nofun
  | @leave t result hc =>
    refine ht.keep hn whole (fun _ hm => Finset.mem_of_mem_erase hm) nofun fun u r he => ?_
    obtain ⟨rfl, rfl⟩ := Event.returned.inj he
    exact ⟨hc, fun hl => ((live_finish hn hc rfl).mp hl).2 rfl⟩
  | drop hc hct => exact ht.keep hn whole (fun _ hm => Finset.mem_of_mem_erase hm) nofun nofun

end Told

theorem Run.told (h : Run source settings events s) : Told settings events s := by
  induction h with
  | start isOpen => exact .initial settings isOpen
  | step hr hs ih => exact ih.step hr.heard hr.owned hr.numbered hs

/-! ## 3. Correlation -/

/-- A frame changes the outlook of no command but the one that it is delivered to. -/
theorem Run.receive_dispatch (h : Run source settings events s) (text : String) (hl : s.Live t)
    (hne : (s.client.dispatch text).2.receive t ≠ s.client.receive t) :
    (s.client.dispatch text).1 = .answered t.identifier ⟨t.token, t.slot⟩ := by
  have hn := h.numbered
  have ho := h.owned
  rcases s.client.dispatch_cases text with ⟨hc, -⟩ | ⟨f, p, -, hp, hd⟩
  · exact absurd (by rw [hc]) hne
  let owner : Ticket := ⟨f.identifier, p.token, p.slot⟩
  have hentry : owner.entry ∈ s.client.pending := mem_of_lookup_eq_some hp
  by_cases heq : t = owner
  · subst heq
    rw [hd]
  · have hslot : t.slot ≠ p.slot := fun hs =>
      heq (hn.eq_of_slot (hn.live_registered hl) (hn.live_registered (ho.owner owner hentry)) hs)
    refine absurd ?_ hne
    -- the entry that goes has another slot, and so has the answer that comes
    have hany : ((s.client.pending.filter fun e => e.1 != f.identifier).any
        fun e => e.2.slot == t.slot) = s.client.pending.any fun e => e.2.slot == t.slot := by
      rw [Bool.eq_iff_iff, List.any_eq_true, List.any_eq_true]
      constructor
      · rintro ⟨entry, hm, hs⟩
        exact ⟨entry, (List.mem_filter.mp hm).1, hs⟩
      · rintro ⟨⟨i, q⟩, hm, hs⟩
        refine ⟨⟨i, q⟩, List.mem_filter.mpr ⟨hm, bne_iff_ne.mpr fun hi => ?_⟩, hs⟩
        have hq : some q = some p := by
          rw [← hp, ← lookup_eq_some_of_mem ho.keys hm]
          exact congrArg (List.lookup · s.client.pending) hi
        obtain rfl := Option.some.inj hq
        exact hslot (beq_iff_eq.mp hs).symm
    have hlookup : List.lookup t.slot ((p.slot, f.message) :: s.client.answers)
        = s.client.answers.lookup t.slot := by
      rw [List.lookup_cons, beq_eq_false_iff_ne.mpr hslot]
    unfold Client.receive
    simp only [hd, hlookup, hany]

/-- **Each command gets its own reply**, in every run.  A command returns nothing, or the message of
the first frame for it, which was delivered to its entry.  No two commands get one frame, and a
frame changes what no other command finds.  If the frame of a command was queued, and the first
frame for it came before its time was over, then that frame's message is its result, and it finds
the message whenever it runs.  The exception is a command that was overtaken by one registered
2 ^ 64 registrations before. -/
theorem correlated (h : Run source settings events s) :
    (∀ t result, .returned t result ∈ events → result = "" ∨
      ∃ reply, Got settings events t reply ∧ reply.frame.message = result) ∧
    (∀ t u reply, Got settings events t reply → Got settings events u reply → t = u) ∧
    (∀ text t, s.Live t → (s.client.dispatch text).2.receive t ≠ s.client.receive t →
      (s.client.dispatch text).1 = .answered t.identifier ⟨t.token, t.slot⟩) ∧
    (∀ t deadline reply, .transmitted t deadline true ∈ events →
      firstReply? settings t events = some reply → reply.time < deadline.wake →
      Overtaken t events ∨
      (∀ result, .leaving t result ∈ s.calls ∨ .returned t result ∈ events →
        result = reply.frame.message) ∧
      (.waiting t deadline ∈ s.calls →
        (Sending.await s.client s.now t deadline).1 = .leaving t reply.frame.message)) := by
  have ht := h.told
  refine ⟨fun t result hr => (ht.returned t result hr).got, ?_,
    fun text t hl hne => h.receive_dispatch text hl hne, ?_⟩
  · intro t u reply htr hur
    have hsame := htr.delivered.symm.trans hur.delivered
    cases t
    cases u
    cases hsame
    rfl
  · intro t deadline reply hsent hfirst htime
    by_cases hover : Overtaken t events
    · exact Or.inl hover
    refine Or.inr ⟨fun result hr => ?_, fun hc => ?_⟩
    · have hs : Settled settings events s.now t result :=
        hr.elim (ht.leaving t result) (ht.returned t result)
      rcases hs.timely deadline hsent with h | ⟨h, -⟩ | ⟨old, h, hm⟩
      · exact absurd h hover
      · exact absurd (h.symm.trans hfirst) (by simp)
      · obtain rfl := Option.some.inj (h.symm.trans hfirst)
        rcases hm with hm | hm
        · exact hm.symm
        · exact absurd htime (Nat.not_lt.mpr hm)
    · have hl : s.Live t := ⟨_, hc, rfl⟩
      have ha := (h.heard.fetched t reply hl hfirst).resolve_right hover
      rcases await_cases s.client s.now t deadline with ⟨text, htext, hnext⟩ | ⟨hnone, -⟩
      · obtain rfl := Option.some.inj (htext.symm.trans ha)
        exact hnext
      · exact absurd (hnone.symm.trans ha) (by simp)

/-- A second frame with the identifier seven. -/
def laterFrame : String := "\x7b\"Identifier\":7,\"Message\":\"later\"\x7d"

/-- Two commands with one identifier are under way, and each returns its own frame. -/
theorem correlated_sevens : ∃ (events : List (Event Unit)) (s : Traffic Unit),
    Run sevens quietSettings events s ∧ .returned (seventh 0) "ok" ∈ events ∧
    ∀ result, .leaving (seventh 1) result ∈ s.calls → result = "later" := by
  have r₀ : Run sevens quietSettings [] (initial quietSettings true : Traffic Unit) := .start true
  have r₁ := r₀.step (e := .begun (.ofSecs 1) (.registered (seventh 0)))
    (.begin (show Client.open? _ _ 2 _ _ _ = some (_, 2, _) from rfl))
  have r₂ := r₁.step (.transmit (t := seventh 0) ⟨1000⟩ true (by decide +kernel))
  have r₃ := r₂.step (.arrive _ okFrame)
  have r₄ := r₃.step (e := .begun (.ofSecs 1) (.registered (seventh 1)))
    (.begin (show Client.open? _ _ 1 _ _ _ = some (_, 3, _) from rfl))
  have r₅ := r₄.step (.arrive _ laterFrame)
  have r₆ := r₅.step (.transmit (t := seventh 1) ⟨1000⟩ true (by decide +kernel))
  have r₇ := r₆.step (@Step.await _ sevens _ (seventh 0) ⟨1000⟩ (by decide +kernel))
  have r₈ := r₇.step (@Step.leave _ sevens _ (seventh 0) "ok" (by decide +kernel))
  have r₉ := r₈.step (@Step.await _ sevens _ (seventh 1) ⟨1000⟩ (by decide +kernel))
  refine ⟨_, _, r₉, by simp, fun result hr => ?_⟩
  have hcase := (correlated r₉).2.2.2 (seventh 1) ⟨1000⟩ _ (by simp) rfl (by decide +kernel)
  have hover := r₉.numbered.not_overtaken (t := seventh 1) (by decide +kernel) (by decide +kernel)
  exact (hcase.resolve_left hover).1 result (.inl hr)

end Traffic
end ServerWarden.Rcon
