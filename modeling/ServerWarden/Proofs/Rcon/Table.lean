/-
# Who owns an entry of the table

Every entry of the table belongs to one command under way, and goes with it.  What makes this hard
is that an identifier is free again as soon as its reply has come in, while the command that got the
reply still holds its ticket: so two commands with one identifier may be under way, and the older
one leaves while the entry is the newer one's.

The argument is in three layers.

* `Numbered`: tickets are numbered by their slots, one after another, and a token is the slot
  modulo 2 ^ 64.
* `Effect`: what a step does to the table is one of four things.  A command is registered, a reply
  is delivered, a command leaves, or the table rests.
* `Owned`: an entry is the newest command's of its identifier, and no reply has come for it.  So
  a command that leaves can take out the entry of another one only if the two have the same token,
  that is, if the other was registered 2 ^ 64 registrations later (`Overtaken`).
-/
import Mathlib.Algebra.Group.Nat.Defs
import Mathlib.Data.Finset.Lattice.Lemmas
import Mathlib.Data.List.Nodup
import ServerWarden.Proofs.Lists
import ServerWarden.Proofs.Rcon.Traffic

namespace ServerWarden.Rcon

variable {α : Type}

/-! ## 1. What the operations do -/

namespace Client

variable {c c' : Client α} {identifier : Int} {t : Ticket} {source : Nat → Int}

theorem isUsable_iff : c.isUsable identifier = true ↔ identifier ≠ broadcastIdentifier ∧
    identifier ≠ c.settings.chatIdentifier ∧ c.pending.lookup identifier = none := by
  simp only [isUsable, isPending, Bool.and_eq_true, bne_iff_ne, Bool.not_eq_true',
    Option.isSome_eq_false_iff, Option.isNone_iff_eq_none, ne_eq, and_assoc]

theorem register?_eq_some (h : c.register? identifier = some (t, c')) :
    c.isUsable identifier = true ∧ t = ⟨identifier, c.nextToken, c.nextSlot⟩ ∧
    c' = { c with
      pending := (identifier, ⟨c.nextToken, c.nextSlot⟩) :: c.pending
      nextToken := c.nextToken + 1
      nextSlot := c.nextSlot + 1 } := by
  unfold register? at h
  split at h
  · next hu =>
    cases h
    exact ⟨hu, rfl, rfl⟩
  · exact nomatch h

theorem register?_eq_none (h : c.register? identifier = none) : c.isUsable identifier = false := by
  unfold register? at h
  split at h
  · exact nomatch h
  · next hu => exact Bool.not_eq_true _ ▸ hu

/-- **The first usable identifier** of a source is taken. -/
theorem registerFrom?_eq_some {fuel drawn drawn' : Nat}
    (h : c.registerFrom? (Traffic.drawFrom source) fuel drawn = some (t, drawn', c')) :
    ∃ n, drawn ≤ n ∧ drawn' = n + 1 ∧
      (∀ m, drawn ≤ m → m < n → c.isUsable (source m) = false) ∧
      c.register? (source n) = some (t, c') := by
  induction fuel generalizing drawn with
  | zero => exact nomatch h
  | succ fuel ih =>
    unfold registerFrom? at h
    split at h
    · next u d hr =>
      cases h
      exact ⟨drawn, le_refl drawn, rfl, fun m hm hlt => absurd hlt (Nat.not_lt.mpr hm), hr⟩
    · next hr =>
      obtain ⟨n, hn, hdrawn, hfirst, hreg⟩ := ih h
      refine ⟨n, Nat.le_of_succ_le hn, hdrawn, fun m hm hlt => ?_, hreg⟩
      rcases Nat.eq_or_lt_of_le hm with rfl | hm
      · exact register?_eq_none hr
      · exact hfirst m hm hlt

/-- What a beginning does: nothing to the client, unless the command is sent and waits. -/
theorem open?_cases {fuel drawn drawn' : Nat} {isOpen : Bool} {timeout : Duration}
    {opening : Opening}
    (h : c.open? (Traffic.drawFrom source) fuel drawn isOpen timeout
      = some (opening, drawn', c')) :
    ((opening = .unsent ∨ opening = .unanswered) ∧ c' = c) ∨
    (∃ t n, opening = .registered t ∧ isOpen = true ∧ timeout.isZero = false ∧
      drawn ≤ n ∧ drawn' = n + 1 ∧
      (∀ m, drawn ≤ m → m < n → c.isUsable (source m) = false) ∧
      c.register? (source n) = some (t, c')) := by
  unfold open? at h
  split at h
  · cases h
    exact Or.inl ⟨Or.inl rfl, rfl⟩
  · next ho =>
    split at h
    · cases h
      exact Or.inl ⟨Or.inr rfl, rfl⟩
    · next ht =>
      obtain ⟨⟨t, d, c''⟩, hr, he⟩ := Option.map_eq_some_iff.mp h
      cases he
      obtain ⟨n, hn, hd, hfirst, hreg⟩ := registerFrom?_eq_some hr
      exact Or.inr ⟨t, n, rfl, by simpa using ho, by simpa using ht, hn, hd, hfirst, hreg⟩

/-- What a frame does: nothing to the client, unless it is the reply that an entry waits for. -/
theorem dispatch_cases (c : Client α) (text : String) :
    ((c.dispatch text).2 = c ∧ (∀ i p, (c.dispatch text).1 ≠ .answered i p) ∧
      ∀ f, c.settings.reply? text = some f → c.pending.lookup f.identifier = none) ∨
    (∃ f p, c.settings.reply? text = some f ∧ c.pending.lookup f.identifier = some p ∧
      c.dispatch text = (.answered f.identifier p, { c with
        pending := c.pending.filter fun e => e.1 != f.identifier
        answers := (p.slot, f.message) :: c.answers })) := by
  unfold dispatch Settings.reply?
  cases hr : Frame.read? text with
  | none => exact Or.inl ⟨rfl, nofun, nofun⟩
  | some f =>
    cases hb : f.isBroadcast c.settings.chatIdentifier with
    | true =>
      left
      simp [hb, Option.filter]
    | false =>
      cases hp : c.pending.lookup f.identifier with
      | none =>
        left
        refine ⟨by simp [hb, hp], by simp [hb, hp], fun g hg => ?_⟩
        obtain rfl : f = g := by simpa [hb, Option.filter] using hg
        exact hp
      | some p =>
        right
        exact ⟨f, p, by simp [hb, Option.filter], hp, by simp [hb, hp]⟩

end Client

namespace Traffic

variable {settings : Settings} {source : Nat → Int} {events : List (Event α)} {e : Event α}
  {s s' : Traffic α} {t u : Ticket}

/-! ## 2. Tickets are numbered -/

/-- A ticket is held by a command under way. -/
def Live (s : Traffic α) (t : Ticket) : Prop := ∃ call ∈ s.calls, call.ticket? = some t

/-- The numbers of tickets: each registration has the next slot, and the token is what 64 bits hold
of it.  Each command under way was registered, and is the only one with its ticket. -/
structure Numbered (settings : Settings) (events : List (Event α)) (s : Traffic α) : Prop where
  same : s.client.settings = settings
  slots : (registrations events).map Ticket.slot = List.range s.client.nextSlot
  nextToken : s.client.nextToken = UInt64.ofNat s.client.nextSlot
  token : ∀ t ∈ registrations events, t.token = UInt64.ofNat t.slot
  identifier : ∀ t ∈ registrations events,
    t.identifier ≠ broadcastIdentifier ∧ t.identifier ≠ settings.chatIdentifier
  registered : ∀ call ∈ s.calls, ∃ t ∈ registrations events, call.ticket? = some t
  unique : ∀ call ∈ s.calls, ∀ other ∈ s.calls, call.ticket? = other.ticket? → call = other

namespace Numbered

theorem live_registered (hn : Numbered settings events s) (h : s.Live t) :
    t ∈ registrations events := by
  obtain ⟨call, hc, ht⟩ := h
  obtain ⟨u, hu, htu⟩ := hn.registered call hc
  obtain rfl : u = t := Option.some.inj (htu.symm.trans ht)
  exact hu

theorem slot_lt (hn : Numbered settings events s) (h : t ∈ registrations events) :
    t.slot < s.client.nextSlot := by
  have hm : t.slot ∈ (registrations events).map Ticket.slot := List.mem_map_of_mem h
  rw [hn.slots] at hm
  exact List.mem_range.mp hm

/-- A slot tells its ticket. -/
theorem eq_of_slot (hn : Numbered settings events s) (ht : t ∈ registrations events)
    (hu : u ∈ registrations events) (h : t.slot = u.slot) : t = u := by
  have hd : ((registrations events).map Ticket.slot).Nodup := hn.slots ▸ List.nodup_range
  exact List.inj_on_of_nodup_map hd ht hu h

theorem length_registrations (hn : Numbered settings events s) :
    (registrations events).length = s.client.nextSlot := by
  have hl := congrArg List.length hn.slots
  rwa [List.length_map, List.length_range] at hl

theorem initial (settings : Settings) (isOpen : Bool) :
    Numbered settings [] (Traffic.initial settings isOpen : Traffic α) where
  same := rfl
  slots := rfl
  nextToken := rfl
  token := nofun
  identifier := nofun
  registered := nofun
  unique := nofun

/-- A step that registers nothing keeps the numbers. -/
theorem keep (hn : Numbered settings events s) (he : e.registers? = none)
    (hset : s'.client.settings = s.client.settings)
    (hslot : s'.client.nextSlot = s.client.nextSlot)
    (htoken : s'.client.nextToken = s.client.nextToken)
    (hreg : ∀ call ∈ s'.calls, ∃ old ∈ s.calls, call.ticket? = old.ticket?)
    (huniq : ∀ call ∈ s'.calls, ∀ other ∈ s'.calls, call.ticket? = other.ticket? → call = other) :
    Numbered settings (events ++ [e]) s' := by
  have hr : registrations (events ++ [e]) = registrations events := by
    rw [registrations_append, he]
    exact List.append_nil _
  exact {
    same := hset.trans hn.same
    slots := by rw [hr, hslot, hn.slots]
    nextToken := by rw [htoken, hslot, hn.nextToken]
    token := hr ▸ hn.token
    identifier := hr ▸ hn.identifier
    registered := fun call hc => by
      obtain ⟨old, ho, heq⟩ := hreg call hc
      rw [hr, heq]
      exact hn.registered old ho
    unique := huniq }

/-- What is under way after a command has moved on. -/
theorem mem_replace (hn : Numbered settings events s) {call next d : Sending}
    (hc : call ∈ s.calls) (hd : d ∈ (s.replace call next).calls) :
    d = next ∨ d ∈ s.calls ∧ d.ticket? ≠ call.ticket? := by
  rcases Finset.mem_insert.mp hd with rfl | hd
  · exact Or.inl rfl
  · obtain ⟨hne, hd⟩ := Finset.mem_erase.mp hd
    exact Or.inr ⟨hd, fun heq => hne (hn.unique d hd call hc heq)⟩

/-- A command that moves on keeps its ticket. -/
theorem replace (hn : Numbered settings events s) (he : e.registers? = none) {call next : Sending}
    (hc : call ∈ s.calls) (ht : next.ticket? = call.ticket?) :
    Numbered settings (events ++ [e]) (s.replace call next) := by
  refine hn.keep he rfl rfl rfl (fun d hd => ?_) fun d hd d' hd' heq => ?_
  · rcases hn.mem_replace hc hd with rfl | ⟨hd, -⟩
    · exact ⟨call, hc, ht⟩
    · exact ⟨d, hd, rfl⟩
  · rcases hn.mem_replace hc hd with rfl | ⟨hd, hne⟩ <;>
      rcases hn.mem_replace hc hd' with rfl | ⟨hd', hne'⟩
    · rfl
    · exact absurd (heq.symm.trans ht) hne'
    · exact absurd (heq.trans ht) hne
    · exact hn.unique d hd d' hd' heq

theorem finish (hn : Numbered settings events s) (he : e.registers? = none) (call : Sending) :
    Numbered settings (events ++ [e]) (s.finish call) := by
  have hsub : ∀ d ∈ (s.finish call).calls, d ∈ s.calls := fun d hd => Finset.mem_of_mem_erase hd
  have hl : (s.finish call).client.settings = s.client.settings ∧
      (s.finish call).client.nextSlot = s.client.nextSlot ∧
      (s.finish call).client.nextToken = s.client.nextToken := by
    cases call <;> exact ⟨rfl, rfl, rfl⟩
  exact hn.keep he hl.1 hl.2.1 hl.2.2 (fun d hd => ⟨d, hsub d hd, rfl⟩)
    fun d hd d' hd' => hn.unique d (hsub d hd) d' (hsub d' hd')

/-- A registration takes the next number. -/
theorem register (hn : Numbered settings events s) (he : e.registers? = some t)
    {identifier : Int} {client : Client α}
    (hr : s.client.register? identifier = some (t, client)) (drawn : Nat) :
    Numbered settings (events ++ [e])
      { s with client, drawn, calls := s.calls ∪ {.registered t} } := by
  obtain ⟨hu, rfl, rfl⟩ := Client.register?_eq_some hr
  obtain ⟨hb, hchat, -⟩ := Client.isUsable_iff.mp hu
  have hreg : registrations (events ++ [e]) = registrations events ++
      [⟨identifier, s.client.nextToken, s.client.nextSlot⟩] := by
    rw [registrations_append, he]
    rfl
  have old : ∀ call ∈ s.calls, call.ticket?
      ≠ some ⟨identifier, s.client.nextToken, s.client.nextSlot⟩ := by
    intro call hc heq
    exact absurd (hn.slot_lt (hn.live_registered ⟨call, hc, heq⟩)) (Nat.lt_irrefl _)
  exact {
    same := hn.same
    slots := by
      rw [hreg, List.map_append, hn.slots]
      exact List.range_succ.symm
    nextToken := by
      show s.client.nextToken + 1 = UInt64.ofNat (s.client.nextSlot + 1)
      rw [hn.nextToken, UInt64.ofNat_add]
      rfl
    token := fun v hv => by
      rcases List.mem_append.mp (hreg ▸ hv) with hv | hv
      · exact hn.token v hv
      · obtain rfl := List.mem_singleton.mp hv
        exact hn.nextToken
    identifier := fun v hv => by
      rcases List.mem_append.mp (hreg ▸ hv) with hv | hv
      · exact hn.identifier v hv
      · obtain rfl := List.mem_singleton.mp hv
        exact ⟨hb, hn.same ▸ hchat⟩
    registered := fun call hc => by
      rw [hreg]
      rcases Finset.mem_union.mp hc with hc | hc
      · obtain ⟨v, hv, hcv⟩ := hn.registered call hc
        exact ⟨v, List.mem_append_left _ hv, hcv⟩
      · obtain rfl := Finset.mem_singleton.mp hc
        exact ⟨_, List.mem_append_right _ List.mem_cons_self, rfl⟩
    unique := fun call hc other ho heq => by
      rcases Finset.mem_union.mp hc with hc | hc <;> rcases Finset.mem_union.mp ho with ho | ho
      · exact hn.unique call hc other ho heq
      · obtain rfl := Finset.mem_singleton.mp ho
        exact absurd heq (old call hc)
      · obtain rfl := Finset.mem_singleton.mp hc
        exact absurd heq.symm (old other ho)
      · exact (Finset.mem_singleton.mp hc).trans (Finset.mem_singleton.mp ho).symm }

end Numbered

theorem begun_unregistered {opening : Opening} (timeout : Duration)
    (h : opening = .unsent ∨ opening = .unanswered) :
    opening.calls = ∅ ∧ (Event.begun timeout opening : Event α).registers? = none := by
  rcases h with rfl | rfl <;> exact ⟨rfl, rfl⟩

theorem ticket?_transmitted (t : Ticket) (deadline : Instant) (queued : Bool) :
    (Sending.transmitted t deadline queued).ticket? = some t := by
  cases queued <;> rfl

theorem ticket?_await (c : Client α) (now : Instant) (t : Ticket) (deadline : Instant) :
    (Sending.await c now t deadline).1.ticket? = some t := by
  unfold Sending.await
  split
  · rfl
  · rfl
  · split <;> rfl

theorem leave_of_ticket? {call : Sending} (h : call.ticket? = some t) (c : Client α) :
    call.leave c = c.release t := by
  cases call with
  | finished result => exact nomatch h
  | _ => cases h; rfl

theorem Numbered.step (hn : Numbered settings events s) (h : Step source s e s') :
    Numbered settings (events ++ [e]) s' := by
  have same : ∀ call ∈ s.calls, ∃ old ∈ s.calls, call.ticket? = old.ticket? :=
    fun call hc => ⟨call, hc, rfl⟩
  cases h with
  | pass _ => exact hn.keep rfl rfl rfl rfl same hn.unique
  | switch isOpen => exact hn.keep rfl rfl rfl rfl same hn.unique
  | listen listener => exact hn.keep rfl rfl rfl rfl same hn.unique
  | arrive text =>
    rcases s.client.dispatch_cases text with ⟨hc, -⟩ | ⟨f, p, -, -, hd⟩
    · refine hn.keep rfl ?_ ?_ ?_ same hn.unique <;> exact congrArg _ hc
    · refine hn.keep rfl ?_ ?_ ?_ same hn.unique <;> simp only [hd]
  | @begin timeout fuel drawn opening client ho =>
    rcases Client.open?_cases ho with ⟨hopening, rfl⟩ | ⟨t, n, rfl, -, -, -, -, -, hr⟩
    · obtain ⟨hno, he⟩ := begun_unregistered timeout hopening
      rw [hno, Finset.union_empty]
      exact hn.keep he rfl rfl rfl same hn.unique
    · exact hn.register rfl hr drawn
  | transmit deadline queued hc => exact hn.replace rfl hc (ticket?_transmitted _ _ _)
  | await hc => exact hn.replace rfl hc (ticket?_await _ _ _ _)
  | leave hc => exact hn.finish rfl _
  | drop hc ht => exact hn.finish rfl _

/-! ## 3. What a step does to the table -/

theorem live_replace {call next : Sending} (hc : call ∈ s.calls)
    (ht : next.ticket? = call.ticket?) : (s.replace call next).Live t ↔ s.Live t := by
  constructor
  · rintro ⟨d, hd, hdt⟩
    rcases Finset.mem_insert.mp hd with rfl | hd
    · exact ⟨call, hc, ht.symm.trans hdt⟩
    · exact ⟨d, Finset.mem_of_mem_erase hd, hdt⟩
  · rintro ⟨d, hd, hdt⟩
    by_cases heq : d = call
    · exact ⟨next, Finset.mem_insert_self _ _, ht.trans (heq ▸ hdt)⟩
    · exact ⟨d, Finset.mem_insert_of_mem (Finset.mem_erase.mpr ⟨heq, hd⟩), hdt⟩

theorem live_finish (hn : Numbered settings events s) {call : Sending} (hc : call ∈ s.calls)
    (ht : call.ticket? = some t) : (s.finish call).Live u ↔ s.Live u ∧ u ≠ t := by
  constructor
  · rintro ⟨d, hd, hdu⟩
    obtain ⟨hne, hd⟩ := Finset.mem_erase.mp hd
    refine ⟨⟨d, hd, hdu⟩, ?_⟩
    rintro rfl
    exact hne (hn.unique d hd call hc (hdu.trans ht.symm))
  · rintro ⟨⟨d, hd, hdu⟩, hne⟩
    refine ⟨d, Finset.mem_erase.mpr ⟨?_, hd⟩, hdu⟩
    rintro rfl
    exact hne (Option.some.inj (hdu.symm.trans ht))

/-- The table rests. -/
structure Rests (settings : Settings) (s : Traffic α) (e : Event α) (s' : Traffic α) : Prop where
  pending : s'.client.pending = s.client.pending
  answers : s'.client.answers = s.client.answers
  live : ∀ t, s'.Live t ↔ s.Live t
  registers : e.registers? = none
  leaves : e.leaves? = none
  /-- A frame that comes in answers no entry. -/
  reply : ∀ i r, e.reply? settings i = some r → s.client.pending.lookup i = none

/-- A command is registered. -/
structure Registers (settings : Settings) (t : Ticket) (s : Traffic α) (e : Event α)
    (s' : Traffic α) : Prop where
  slot : t.slot = s.client.nextSlot
  free : s.client.pending.lookup t.identifier = none
  pending : s'.client.pending = (t.identifier, ⟨t.token, t.slot⟩) :: s.client.pending
  answers : s'.client.answers = s.client.answers
  live : ∀ u, s'.Live u ↔ s.Live u ∨ u = t
  registers : e.registers? = some t
  reply : ∀ i, e.reply? settings i = none

/-- A frame is delivered to an entry. -/
structure Delivers (settings : Settings) (f : Frame) (p : Pending) (s : Traffic α) (e : Event α)
    (s' : Traffic α) : Prop where
  entry : s.client.pending.lookup f.identifier = some p
  pending : s'.client.pending = s.client.pending.filter fun e => e.1 != f.identifier
  answers : s'.client.answers = (p.slot, f.message) :: s.client.answers
  live : ∀ t, s'.Live t ↔ s.Live t
  registers : e.registers? = none
  leaves : e.leaves? = none
  reply : e.reply? settings f.identifier = some ⟨s.now, f, .answered f.identifier p⟩
  other : ∀ i, i ≠ f.identifier → e.reply? settings i = none

/-- A command leaves. -/
structure Leaves (settings : Settings) (t : Ticket) (s : Traffic α) (e : Event α)
    (s' : Traffic α) : Prop where
  mem : s.Live t
  client : s'.client = s.client.release t
  live : ∀ u, s'.Live u ↔ s.Live u ∧ u ≠ t
  registers : e.registers? = none
  leaves : e.leaves? = some t
  reply : ∀ i, e.reply? settings i = none

/-- **What a step does to the table** is one of four things. -/
inductive Effect (settings : Settings) (s : Traffic α) (e : Event α) (s' : Traffic α) : Prop where
  | rests : Rests settings s e s' → Effect settings s e s'
  | registers (t : Ticket) : Registers settings t s e s' → Effect settings s e s'
  | delivers (f : Frame) (p : Pending) : Delivers settings f p s e s' → Effect settings s e s'
  | leaves (t : Ticket) : Leaves settings t s e s' → Effect settings s e s'

theorem Step.effect_arrive (hn : Numbered settings events s) (text : String) :
    Effect settings s (.arrived s.now text (s.client.dispatch text).1)
      { s with client := (s.client.dispatch text).2 } := by
  rcases s.client.dispatch_cases text with ⟨hc, -, hfree⟩ | ⟨f, p, hf, hp, hd⟩
  · refine .rests ⟨congrArg _ hc, congrArg _ hc, fun _ => Iff.rfl, rfl, rfl, fun i r hr => ?_⟩
    obtain ⟨f, hf, -⟩ := Option.map_eq_some_iff.mp hr
    obtain ⟨hread, hi⟩ := Option.filter_eq_some_iff.mp hf
    obtain rfl : f.identifier = i := by simpa using hi
    exact hfree f (hn.same.symm ▸ hread)
  · rw [hn.same] at hf
    refine .delivers f p ⟨hp, ?_, ?_, fun _ => Iff.rfl, rfl, rfl, ?_, fun i hi => ?_⟩
    · simp only [hd]
    · simp only [hd]
    · simp [Event.reply?, hf, hd, Option.filter]
    · simp [Event.reply?, hf, Option.filter, hi.symm]

theorem Step.effect (hn : Numbered settings events s) (h : Step source s e s') :
    Effect settings s e s' := by
  cases h with
  | pass _ => exact .rests ⟨rfl, rfl, fun _ => Iff.rfl, rfl, rfl, nofun⟩
  | switch isOpen => exact .rests ⟨rfl, rfl, fun _ => Iff.rfl, rfl, rfl, nofun⟩
  | listen listener => exact .rests ⟨rfl, rfl, fun _ => Iff.rfl, rfl, rfl, nofun⟩
  | arrive text => exact effect_arrive hn text
  | @begin timeout fuel drawn opening client ho =>
    rcases Client.open?_cases ho with ⟨hopening, rfl⟩ | ⟨t, n, rfl, -, -, -, -, -, hr⟩
    · obtain ⟨hno, he⟩ := begun_unregistered timeout hopening
      rw [hno, Finset.union_empty]
      exact .rests ⟨rfl, rfl, fun _ => Iff.rfl, he, rfl, nofun⟩
    · obtain ⟨hu, rfl, rfl⟩ := Client.register?_eq_some hr
      refine .registers _ ⟨rfl, (Client.isUsable_iff.mp hu).2.2, rfl, rfl, fun u => ?_, rfl,
        fun _ => rfl⟩
      constructor
      · rintro ⟨d, hd, hdu⟩
        rcases Finset.mem_union.mp hd with hd | hd
        · exact Or.inl ⟨d, hd, hdu⟩
        · obtain rfl := Finset.mem_singleton.mp hd
          exact Or.inr (Option.some.inj hdu).symm
      · rintro (⟨d, hd, hdu⟩ | rfl)
        · exact ⟨d, Finset.mem_union_left _ hd, hdu⟩
        · exact ⟨_, Finset.mem_union_right _ (Finset.mem_singleton_self _), rfl⟩
  | transmit deadline queued hc =>
    exact .rests ⟨rfl, rfl, fun _ => live_replace hc (ticket?_transmitted _ _ _), rfl, rfl, nofun⟩
  | await hc =>
    exact .rests ⟨rfl, rfl, fun _ => live_replace hc (ticket?_await _ _ _ _), rfl, rfl, nofun⟩
  | @leave t result hc =>
    exact .leaves t ⟨⟨_, hc, rfl⟩, rfl, fun _ => live_finish hn hc rfl, rfl, rfl, fun _ => rfl⟩
  | @drop t call hc ht =>
    exact .leaves t ⟨⟨call, hc, ht⟩, leave_of_ticket? ht _, fun _ => live_finish hn hc ht, rfl, rfl,
      fun _ => rfl⟩

theorem Step.registers (hn : Numbered settings events s) (h : Step source s e s')
    (he : e.registers? = some t) : Registers settings t s e s' := by
  cases h.effect hn with
  | rests h => exact absurd (h.registers.symm.trans he) (by simp)
  | registers u h =>
    obtain rfl : u = t := Option.some.inj (h.registers.symm.trans he)
    exact h
  | delivers f p h => exact absurd (h.registers.symm.trans he) (by simp)
  | leaves u h => exact absurd (h.registers.symm.trans he) (by simp)

/-! ## 4. An entry is its owner's -/

end Traffic

/-- The entry of a command in the table. -/
def Ticket.entry (t : Ticket) : Int × Pending := (t.identifier, ⟨t.token, t.slot⟩)

theorem Ticket.entry_injective {t u : Ticket} (h : t.entry = u.entry) : t = u := by
  cases t
  cases u
  cases h
  rfl

namespace Traffic

variable {settings : Settings} {source : Nat → Int} {events : List (Event α)} {e : Event α}
  {s s' : Traffic α} {t u : Ticket}

/-- A command with the same identifier, registered at least 2 ^ 64 registrations earlier, left
after the registration of `t`.  Only then may two commands under way have the same token. -/
def Overtaken (t : Ticket) (events : List (Event α)) : Prop :=
  ∃ e ∈ since t events, ∃ u, e.leaves? = some u ∧ u.identifier = t.identifier ∧
    u.slot + 2 ^ 64 ≤ t.slot

theorem Overtaken.append (h : Overtaken t events) (ht : t ∈ registrations events) :
    Overtaken t (events ++ [e]) := by
  obtain ⟨e', he', h⟩ := h
  refine ⟨e', ?_, h⟩
  rw [since_append ht]
  exact List.mem_append_left _ he'

/-- **Ownership.**  An entry belongs to the newest command under way with its identifier, for which
nothing has come; and a command for which nothing has come has its entry. -/
structure Owned (settings : Settings) (events : List (Event α)) (s : Traffic α) : Prop where
  keys : (s.client.pending.map Prod.fst).Nodup
  owner : ∀ t : Ticket, t.entry ∈ s.client.pending → s.Live t
  newest : ∀ t u : Ticket, t.entry ∈ s.client.pending → s.Live u → u.identifier = t.identifier →
    u.slot ≤ t.slot
  unheard : ∀ t : Ticket, t.entry ∈ s.client.pending → replies settings t events = []
  kept : ∀ t, s.Live t → replies settings t events = [] →
    t.entry ∈ s.client.pending ∨ Overtaken t events

namespace Owned

theorem lookup (ho : Owned settings events s) (h : t.entry ∈ s.client.pending) :
    s.client.pending.lookup t.identifier = some ⟨t.token, t.slot⟩ :=
  lookup_eq_some_of_mem ho.keys h

theorem initial (settings : Settings) (isOpen : Bool) :
    Owned settings [] (Traffic.initial settings isOpen : Traffic α) where
  keys := List.nodup_nil
  owner := nofun
  newest := nofun
  unheard := nofun
  kept t h := by
    obtain ⟨call, hc, -⟩ := h
    exact nomatch hc

theorem rests (ho : Owned settings events s) (hn : Numbered settings events s)
    (he : Rests settings s e s') : Owned settings (events ++ [e]) s' where
  keys := he.pending ▸ ho.keys
  owner t h := (he.live t).mpr (ho.owner t (he.pending ▸ h))
  newest t u h hu := ho.newest t u (he.pending ▸ h) ((he.live u).mp hu)
  unheard t h := by
    have hold : t.entry ∈ s.client.pending := he.pending ▸ h
    have hnone : e.reply? settings t.identifier = none := by
      refine Option.eq_none_iff_forall_ne_some.mpr fun r hr => ?_
      exact absurd ((he.reply _ r hr).symm.trans (ho.lookup hold)) (by simp)
    rw [replies_append (hn.live_registered (ho.owner t hold)), ho.unheard t hold, hnone]
    rfl
  kept t h hr := by
    have hl := (he.live t).mp h
    have ht := hn.live_registered hl
    rw [replies_append ht] at hr
    rcases ho.kept t hl (List.append_eq_nil_iff.mp hr).1 with hm | hover
    · exact Or.inl (he.pending ▸ hm)
    · exact Or.inr (hover.append ht)

theorem registers (ho : Owned settings events s) (hn : Numbered settings events s)
    (he : Registers settings t s e s') : Owned settings (events ++ [e]) s' where
  keys := by
    rw [he.pending, List.map_cons]
    refine List.nodup_cons.mpr ⟨fun hm => ?_, ho.keys⟩
    obtain ⟨x, hx, hk⟩ := List.mem_map.mp hm
    have hne := List.lookup_eq_none_iff.mp he.free x hx
    exact absurd hk.symm (bne_iff_ne.mp hne)
  owner u h := by
    rw [he.pending] at h
    rcases List.mem_cons.mp h with heq | hm
    · exact (he.live u).mpr (Or.inr (Ticket.entry_injective heq))
    · exact (he.live u).mpr (Or.inl (ho.owner u hm))
  newest u v h hv hi := by
    rw [he.pending] at h
    rcases List.mem_cons.mp h with heq | hm <;> rcases (he.live v).mp hv with hv | rfl
    · obtain rfl : u = t := Ticket.entry_injective heq
      exact he.slot ▸ (hn.slot_lt (hn.live_registered hv)).le
    · obtain rfl : u = v := Ticket.entry_injective heq
      exact le_refl _
    · exact ho.newest u v hm hv hi
    · exact absurd (he.free.symm.trans (hi ▸ ho.lookup hm)) (by simp)
  unheard u h := by
    rw [he.pending] at h
    rcases List.mem_cons.mp h with heq | hm
    · obtain rfl : u = t := Ticket.entry_injective heq
      refine replies_append_of_notMem (fun hmem => ?_) (he.reply _)
      exact absurd (hn.slot_lt hmem) (he.slot ▸ Nat.lt_irrefl _)
    · rw [replies_append (hn.live_registered (ho.owner u hm)), ho.unheard u hm, he.reply]
      rfl
  kept u h hr := by
    rcases (he.live u).mp h with hl | rfl
    · have hu := hn.live_registered hl
      rw [replies_append hu] at hr
      rcases ho.kept u hl (List.append_eq_nil_iff.mp hr).1 with hm | hover
      · exact Or.inl (he.pending ▸ List.mem_cons_of_mem _ hm)
      · exact Or.inr (hover.append hu)
    · exact Or.inl (he.pending ▸ List.mem_cons_self)

theorem delivers {f : Frame} {p : Pending} (ho : Owned settings events s)
    (hn : Numbered settings events s) (he : Delivers settings f p s e s') :
    Owned settings (events ++ [e]) s' := by
  have hmem : ∀ t : Ticket, t.entry ∈ s'.client.pending ↔
      t.entry ∈ s.client.pending ∧ t.identifier ≠ f.identifier := by
    intro t
    rw [he.pending, List.mem_filter, bne_iff_ne]
    rfl
  exact {
    keys := by
      rw [he.pending]
      exact ho.keys.sublist (List.filter_sublist.map _)
    owner := fun t h => (he.live t).mpr (ho.owner t ((hmem t).mp h).1)
    newest := fun t u h hu => ho.newest t u ((hmem t).mp h).1 ((he.live u).mp hu)
    unheard := fun t h => by
      obtain ⟨hold, hne⟩ := (hmem t).mp h
      rw [replies_append (hn.live_registered (ho.owner t hold)), ho.unheard t hold,
        he.other _ hne]
      rfl
    kept := fun t h hr => by
      have hl := (he.live t).mp h
      have ht := hn.live_registered hl
      rw [replies_append ht] at hr
      obtain ⟨hold, hnew⟩ := List.append_eq_nil_iff.mp hr
      have hne : t.identifier ≠ f.identifier := by
        intro heq
        rw [heq, he.reply] at hnew
        exact nomatch hnew
      rcases ho.kept t hl hold with hm | hover
      · exact Or.inl ((hmem t).mpr ⟨hm, hne⟩)
      · exact Or.inr (hover.append ht) }

/-- Two tickets with one token are 2 ^ 64 registrations apart. -/
theorem overtaken_of_token (hn : Numbered settings events s) (ht : t ∈ registrations events)
    (hu : u ∈ registrations events) (hne : t ≠ u) (hle : u.slot ≤ t.slot)
    (htoken : t.token = u.token) : u.slot + 2 ^ 64 ≤ t.slot := by
  have hmod : t.slot % 2 ^ 64 = u.slot % 2 ^ 64 := by
    rw [hn.token t ht, hn.token u hu] at htoken
    simpa using congrArg UInt64.toNat htoken
  have hslot : t.slot ≠ u.slot := fun heq => hne (hn.eq_of_slot ht hu heq)
  omega

theorem leaves (ho : Owned settings events s) (hn : Numbered settings events s)
    (he : Leaves settings u s e s') : Owned settings (events ++ [e]) s' := by
  have hp : s'.client.pending = s.client.pending.filter fun e =>
      !(e.1 == u.identifier && e.2.token == u.token) := by rw [he.client]; rfl
  have hmem : ∀ t : Ticket, t.entry ∈ s'.client.pending ↔
      t.entry ∈ s.client.pending ∧ ¬ (t.identifier = u.identifier ∧ t.token = u.token) := by
    intro t
    rw [hp, List.mem_filter]
    refine and_congr_right fun _ => ?_
    rw [not_and_or]
    simp [Ticket.entry]
  exact {
    keys := by
      rw [hp]
      exact ho.keys.sublist (List.filter_sublist.map _)
    owner := fun t h => by
      obtain ⟨hold, hne⟩ := (hmem t).mp h
      refine (he.live t).mpr ⟨ho.owner t hold, ?_⟩
      rintro rfl
      exact hne ⟨rfl, rfl⟩
    newest := fun t v h hv => ho.newest t v ((hmem t).mp h).1 ((he.live v).mp hv).1
    unheard := fun t h => by
      have hold := ((hmem t).mp h).1
      rw [replies_append (hn.live_registered (ho.owner t hold)), ho.unheard t hold, he.reply]
      rfl
    kept := fun t h hr => by
      obtain ⟨hl, hne⟩ := (he.live t).mp h
      have ht := hn.live_registered hl
      rw [replies_append ht] at hr
      rcases ho.kept t hl (List.append_eq_nil_iff.mp hr).1 with hm | hover
      · by_cases hsame : t.identifier = u.identifier ∧ t.token = u.token
        · -- the entry of `t` goes with a command that is not its owner
          have hu := hn.live_registered he.mem
          have hle : u.slot ≤ t.slot := ho.newest t u hm he.mem hsame.1.symm
          refine Or.inr ⟨e, ?_, u, he.leaves, hsame.1.symm,
            overtaken_of_token hn ht hu hne hle hsame.2⟩
          rw [since_append ht]
          exact List.mem_append_right _ List.mem_cons_self
        · exact Or.inl ((hmem t).mpr ⟨hm, hsame⟩)
      · exact Or.inr (hover.append ht) }

theorem step (ho : Owned settings events s) (hn : Numbered settings events s)
    (h : Step source s e s') : Owned settings (events ++ [e]) s' := by
  cases h.effect hn with
  | rests he => exact ho.rests hn he
  | registers t he => exact ho.registers hn he
  | delivers f p he => exact ho.delivers hn he
  | leaves t he => exact ho.leaves hn he

end Owned

theorem Run.numbered (h : Run source settings events s) : Numbered settings events s := by
  induction h with
  | start isOpen => exact .initial settings isOpen
  | step _ hs ih => exact ih.step hs

theorem Run.owned (h : Run source settings events s) : Owned settings events s := by
  induction h with
  | start isOpen => exact .initial settings isOpen
  | step hr hs ih => exact ih.step hr.numbered hs

/-! ## 5. The table of a run -/

/-- An identifier that a new command may take. -/
def Free (s : Traffic α) (identifier : Int) : Prop :=
  identifier ≠ 0 ∧ identifier ≠ s.client.settings.chatIdentifier ∧
    ∀ entry ∈ s.client.pending, identifier ≠ entry.1

theorem isUsable_iff_free {identifier : Int} :
    s.client.isUsable identifier = true ↔ s.Free identifier := by
  rw [Client.isUsable_iff, List.lookup_eq_none_iff]
  simp only [bne_iff_ne]
  rfl

/-- A registration takes the first free identifier that its source has left. -/
theorem Step.takes_first {timeout : Duration}
    (h : Step source s (.begun timeout (.registered t)) s') :
    ∃ n, s.drawn ≤ n ∧ s'.drawn = n + 1 ∧ t.identifier = source n ∧ s.Free (source n) ∧
      ∀ m, s.drawn ≤ m → m < n → ¬ s.Free (source m) := by
  cases h with
  | begin ho =>
    rcases Client.open?_cases ho with ⟨hopening, -⟩ | ⟨u, n, hu, -, -, hn, hd, hfirst, hr⟩
    · rcases hopening with h | h <;> exact nomatch h
    · cases hu
      obtain ⟨husable, rfl, -⟩ := Client.register?_eq_some hr
      refine ⟨n, hn, hd, rfl, isUsable_iff_free.mp husable, fun m hm hlt hfree => ?_⟩
      exact absurd (isUsable_iff_free.mpr hfree) (by rw [hfirst m hm hlt]; decide)

/-- A command that is not sent, or waits for no answer, does nothing to the client. -/
theorem Step.begun_client {timeout : Duration} {opening : Opening}
    (h : Step source s (.begun timeout opening) s')
    (hidle : s.isOpen = false ∨ timeout.isZero = true) :
    s'.client = s.client ∧ s'.calls = s.calls := by
  cases h with
  | begin ho =>
    rcases Client.open?_cases ho with ⟨hopening, rfl⟩ | ⟨u, n, -, hopen, ht, -⟩
    · obtain ⟨hno, -⟩ := begun_unregistered (α := α) timeout hopening
      exact ⟨rfl, by rw [hno, Finset.union_empty]⟩
    · rcases hidle with h | h
      · exact absurd (hopen.symm.trans h) (by decide)
      · exact absurd (ht.symm.trans h) (by decide)

/-- Before 2 ^ 64 registrations no command is overtaken. -/
theorem Numbered.not_overtaken (hn : Numbered settings events s)
    (hb : (registrations events).length < 2 ^ 64) (ht : t ∈ registrations events) :
    ¬ Overtaken t events := by
  rintro ⟨-, -, u, -, -, hle⟩
  have hlt := hn.slot_lt ht
  rw [hn.length_registrations] at hb
  omega

/-- Before 2 ^ 64 registrations a token tells its ticket. -/
theorem Numbered.eq_of_token (hn : Numbered settings events s)
    (hb : (registrations events).length < 2 ^ 64) (ht : t ∈ registrations events)
    (hu : u ∈ registrations events) (h : t.token = u.token) : t = u := by
  by_contra hne
  have hlt := hn.slot_lt ht
  have hlu := hn.slot_lt hu
  rw [hn.length_registrations] at hb
  rcases Nat.le_total u.slot t.slot with hle | hle
  · have := Owned.overtaken_of_token hn ht hu hne hle h
    omega
  · have := Owned.overtaken_of_token hn hu ht (Ne.symm hne) hle h.symm
    omega

/-- **The table of pending commands**, in every state that is reached with fewer than 2 ^ 64
registrations.  An entry has an identifier that commands may use, and the token of exactly one
command under way, which has that identifier.  A command whose reply has not come in has its entry.
A registration takes the first free identifier of its source, a command without a connection or
without time leaves the table alone, and the table is empty when no registered command is under
way. -/
theorem table_owned (h : Run source settings events s)
    (hb : (registrations events).length < 2 ^ 64) :
    (∀ i p, (i, p) ∈ s.client.pending → i ≠ 0 ∧ i ≠ settings.chatIdentifier ∧
      ∃ call ∈ s.calls, call.ticket? = some ⟨i, p.token, p.slot⟩ ∧
        ∀ other ∈ s.calls, ∀ t, other.ticket? = some t → t.token = p.token → other = call) ∧
    (∀ call ∈ s.calls, ∀ t, call.ticket? = some t → firstReply? settings t events = none →
      s.client.pending.lookup t.identifier = some ⟨t.token, t.slot⟩) ∧
    (∀ timeout t s', Step source s (.begun timeout (.registered t)) s' →
      ∃ n, s.drawn ≤ n ∧ s'.drawn = n + 1 ∧ t.identifier = source n ∧ s.Free (source n) ∧
        ∀ m, s.drawn ≤ m → m < n → ¬ s.Free (source m)) ∧
    (∀ timeout opening s', Step source s (.begun timeout opening) s' →
      s.isOpen = false ∨ timeout.isZero = true → s'.client.pending = s.client.pending) ∧
    (s.calls = ∅ → s.client.pending = []) := by
  have hn := h.numbered
  have ho := h.owned
  refine ⟨?_, ?_, fun _ _ _ hs => hs.takes_first, ?_, ?_⟩
  · intro i p hp
    obtain ⟨call, hc, ht⟩ : s.Live ⟨i, p.token, p.slot⟩ := ho.owner ⟨i, p.token, p.slot⟩ hp
    have hreg := hn.live_registered ⟨call, hc, ht⟩
    obtain ⟨hbroadcast, hchat⟩ := hn.identifier _ hreg
    refine ⟨hbroadcast, hchat, call, hc, ht, fun other hother u hu htoken => ?_⟩
    have heq := hn.eq_of_token hb (hn.live_registered ⟨other, hother, hu⟩) hreg htoken
    exact hn.unique other hother call hc (hu.trans (heq ▸ ht.symm))
  · intro call hc t ht hnone
    have hlive : s.Live t := ⟨call, hc, ht⟩
    have hmem := (ho.kept t hlive (List.head?_eq_none_iff.mp hnone)).resolve_right
      (hn.not_overtaken hb (hn.live_registered hlive))
    exact ho.lookup hmem
  · exact fun _ _ _ hs hidle => congrArg Client.pending (hs.begun_client hidle).1
  · intro hempty
    refine List.eq_nil_iff_forall_not_mem.mpr fun entry hmem => ?_
    obtain ⟨call, hc, -⟩ := ho.owner ⟨entry.1, entry.2.token, entry.2.slot⟩ hmem
    exact absurd (hempty ▸ hc) (Finset.notMem_empty call)

/-- A source that offers an identifier that is no command's, and then always the same. -/
def sevens (n : Nat) : Int := if n = 0 then 0 else 7

/-- A console whose chat comes under an identifier that no command has here. -/
def quietSettings : Settings := ⟨"localhost", 28016, "", false, -1⟩

/-- A reply to the identifier seven. -/
def okFrame : String := "\x7b\"Identifier\":7,\"Message\":\"ok\"\x7d"

/-- The ticket of a command that is sent under the identifier seven. -/
def seventh (slot : Nat) : Ticket := ⟨7, .ofNat slot, slot⟩

/-- A command leaves with its reply after another one took its identifier. -/
theorem table_owned_sevens : ∃ (events : List (Event Unit)) (s : Traffic Unit),
    Run sevens quietSettings events s ∧ registrations events = [seventh 0, seventh 1] ∧
    .returned (seventh 0) "ok" ∈ events ∧ s.client.pending.lookup 7 = some ⟨1, 1⟩ := by
  have r₀ : Run sevens quietSettings [] (initial quietSettings true : Traffic Unit) := .start true
  have r₁ := r₀.step (e := .begun (.ofSecs 1) (.registered (seventh 0)))
    (.begin (show Client.open? _ _ 2 _ _ _ = some (_, 2, _) from rfl))
  have r₂ := r₁.step (.transmit (t := seventh 0) ⟨1000⟩ true (by decide +kernel))
  have r₃ := r₂.step (.arrive _ okFrame)
  have r₄ := r₃.step (e := .begun (.ofSecs 1) (.registered (seventh 1)))
    (.begin (show Client.open? _ _ 1 _ _ _ = some (_, 3, _) from rfl))
  have r₅ := r₄.step (@Step.await _ sevens _ (seventh 0) ⟨1000⟩ (by decide +kernel))
  have r₆ := r₅.step (@Step.leave _ sevens _ (seventh 0) "ok" (by decide +kernel))
  refine ⟨_, _, r₆, by decide +kernel, by simp, ?_⟩
  exact (table_owned r₆ (by decide +kernel)).2.1 (.registered (seventh 1)) (by decide +kernel)
    (seventh 1) rfl rfl

end Traffic
end ServerWarden.Rcon
