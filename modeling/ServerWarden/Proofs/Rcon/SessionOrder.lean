/-
# A session keeps its order

Whatever happens to a session, and in whatever order its owner and its senders act, two things keep
their order.

* What the owner is told (`Talk`).  Attempts follow one another, each of them a failure, or an
  opening, the messages of the connection, and its closing.  A message is told for each text frame,
  as it comes in.
* What is written (`Carried`).  While a connection moves frames, those that its queue took are
  those that were written and those that wait, in this order.  When it ends, those that wait are
  dropped.  So what is written on a connection is a beginning of what its queue took, and nothing is
  kept for a later connection, though senders may have looked for their queue long before.

`session_order` puts the two together.
-/
import Mathlib.Data.List.Infix
import ServerWarden.Proofs.Rcon.Wire

namespace ServerWarden.Rcon

/-! ## 1. What the owner is told -/

/-- The attempts of a session that are over, one after the other. -/
inductive Attempts : List SessionEvent → Prop where
  | nil : Attempts []
  | failed (why : String) {word : List SessionEvent} : Attempts word →
      Attempts (.failed why :: word)
  | opened (texts : List String) (reason : String) {word : List SessionEvent} : Attempts word →
      Attempts (.opened :: (texts.map .message ++ .closed reason :: word))

theorem Attempts.append {word more : List SessionEvent} (h : Attempts word)
    (hmore : Attempts more) : Attempts (word ++ more) := by
  induction h with
  | nil => exact hmore
  | failed why _ ih => exact .failed why ih
  | opened texts reason _ ih =>
    rw [List.cons_append, List.append_assoc, List.cons_append]
    exact .opened texts reason ih

/-- What has been told so far, with the last connection open or not. -/
inductive Talk : Bool → List SessionEvent → Prop where
  | ended {word : List SessionEvent} : Attempts word → Talk false word
  | lasting {word : List SessionEvent} (texts : List String) : Attempts word →
      Talk true (word ++ .opened :: texts.map .message)

/-- `Tells b events b'`: what may be told at once, if the connection is open before as `b` says and
after as `b'` says. -/
inductive Tells : Bool → List SessionEvent → Bool → Prop where
  | nothing (b : Bool) : Tells b [] b
  | failed (why : String) : Tells false [.failed why] false
  | opened : Tells false [.opened] true
  | message (text : String) : Tells true [.message text] true
  | closed (reason : String) : Tells true [.closed reason] false

/-- Talk that breaks off can be brought to an end. -/
theorem Talk.completed {b : Bool} {told : List SessionEvent} (h : Talk b told) :
    ∃ word, Attempts word ∧ told <+: word := by
  cases h with
  | ended hword => exact ⟨told, hword, List.prefix_rfl⟩
  | @lasting word texts hword =>
    refine ⟨word ++ .opened :: (texts.map .message ++ [.closed ""]), ?_, ?_⟩
    · exact hword.append (.opened texts "" .nil)
    · exact ⟨[.closed ""], by simp⟩

theorem Talk.step {b b' : Bool} {told more : List SessionEvent} (h : Talk b told)
    (hmore : Tells b more b') : Talk b' (told ++ more) := by
  cases hmore with
  | nothing => rwa [List.append_nil]
  | failed why =>
    obtain ⟨hword⟩ := h
    exact .ended (hword.append (.failed why .nil))
  | opened =>
    obtain ⟨hword⟩ := h
    exact .lasting [] hword
  | message text =>
    obtain _ | ⟨texts, hword⟩ := h
    have htalk := Talk.lasting (texts ++ [text]) hword
    rwa [List.map_append, ← List.cons_append, ← List.append_assoc] at htalk
  | closed reason =>
    obtain _ | @⟨word, texts, hword⟩ := h
    have htalk := Talk.ended (hword.append (.opened texts reason .nil))
    rwa [← List.cons_append, ← List.append_assoc] at htalk

/-- Whether an event is the closing of a connection. -/
def SessionEvent.isClosing : SessionEvent → Bool
  | .closed _ => true
  | _ => false

/-- Openings and closings alternate. -/
theorem Tells.balance {b b' : Bool} {events : List SessionEvent} (h : Tells b events b') :
    events.count .opened + b.toNat = events.countP SessionEvent.isClosing + b'.toNat := by
  cases h with
  | nothing => simp
  | failed | opened | message | closed => rfl

namespace Session

/-- Whether the owner was told of a connection the end of which it was not told. -/
def isOpen (s : Session) : Bool :=
  match s.place with
  | .pumping | .ended _ => true
  | _ => false

variable {s s' : Session} {h : Happening} {effects : List SessionEffect}

theorem isOpen_of_pumping (h : s.place = .pumping) : s.isOpen = true := by
  unfold isOpen
  rw [h]

theorem Ends.silent {reason : String} (hends : Ends s h reason effects) :
    effects.filterMap SessionEffect.event? = [] ∧
      effects.filterMap SessionEffect.frame? = [] := by
  cases hends <;> exact ⟨rfl, rfl⟩

/-- **What a session says** fits what it said before. -/
theorem Move.tells (hmove : Move s h s' effects) :
    Tells s.isOpen (effects.filterMap SessionEffect.event?) s'.isOpen := by
  cases hmove with
  | start hplace | pause hplace | stop hplace | resume _ hplace =>
    rw [show s.isOpen = false by simp [isOpen, hplace]]
    exact .nothing false
  | abandon hplace =>
    have hopen : s.isOpen = false := by
      rcases hplace with hplace | ⟨d, hplace⟩ <;> simp [isOpen, hplace]
    rw [hopen]
    exact .nothing false
  | connect hplace =>
    rw [show s.isOpen = false by simp [isOpen, hplace]]
    exact .opened
  | fail why hplace =>
    rw [show s.isOpen = false by simp [isOpen, hplace]]
    exact .failed why
  | hear text hplace =>
    rw [isOpen_of_pumping hplace]
    exact .message text
  | ignore => exact .nothing _
  | write => exact .nothing _
  | finish hplace hends =>
    rw [isOpen_of_pumping hplace, hends.silent.1]
    exact .nothing true
  | notice reason hplace =>
    rw [show s.isOpen = true by simp [isOpen, hplace]]
    exact .closed reason

/-- The connections are counted as they are told. -/
theorem Move.connections (hmove : Move s h s' effects) : s'.connections
    = s.connections + (effects.filterMap SessionEffect.event?).count .opened := by
  cases hmove with
  | finish _ hends =>
    rw [hends.silent.1]
    rfl
  | _ => rfl

/-- A message is told for a text frame, and for nothing else. -/
theorem Move.messages (hmove : Move s h s' effects) :
    (effects.filterMap SessionEffect.event?).filterMap SessionEvent.message?
      = (Deed.happened h effects).heard := by
  cases hmove with
  | finish _ hends =>
    rw [hends.silent.1]
    cases hends <;> rfl
  | _ => rfl

end Session

/-! ## 2. What is written -/

namespace Session

variable {s s' : Session} {h : Happening} {effects : List SessionEffect}

/-- `Handles s s' frames`: what may become of the queue at once, if `frames` are written. -/
inductive Handles (s : Session) : Session → List (Nat × String) → Prop where
  | nothing {s' : Session} : s'.queue = s.queue → s'.connections = s.connections →
      (s'.place = .pumping → s.place = .pumping) → Handles s s' []
  | opens {s' : Session} : s'.connections = s.connections + 1 → s'.queue = [] → Handles s s' []
  | writes {payload : String} {later : List String} : s.place = .pumping →
      s.queue = payload :: later →
      Handles s { s with queue := later } [(s.connections, payload)]
  | ends (reason : String) : Handles s (s.finish reason) []
  /-- A frame goes out, and the connection ends all the same. -/
  | tears {payload : String} {later : List String} : s.place = .pumping →
      s.queue = payload :: later → (reason : String) →
      Handles s (s.finish reason) [(s.connections, payload)]

/-- A frame is written on the latest connection, while that moves frames. -/
theorem Handles.mem {frames : List (Nat × String)} {frame : Nat × String}
    (hhandles : s.Handles s' frames) (hframe : frame ∈ frames) :
    s.place = .pumping ∧ frame.1 = s.connections := by
  cases hhandles with
  | nothing | opens | ends => exact nomatch hframe
  | writes hplace | tears hplace =>
    rw [List.mem_singleton.mp hframe]
    exact ⟨hplace, rfl⟩

/-- **What a session makes of its queue** is one of these. -/
theorem Move.handles (hmove : Move s h s' effects) :
    s.Handles s' (effects.filterMap SessionEffect.frame?) := by
  cases hmove with
  | connect => exact .opens rfl rfl
  | hear | ignore => exact .nothing rfl rfl id
  | write hplace hqueue => exact .writes hplace hqueue
  | finish _ hends =>
    rw [hends.silent.2]
    exact .ends _
  | start | fail | notice | pause | stop | resume | abandon => exact .nothing rfl rfl nofun

end Session

/-- Those of a connection. -/
def Parcel.on (c : Nat) (ps : List Parcel) : List Parcel := ps.filter (·.connection = c)

namespace Parcel

variable {c : Nat} {p : Parcel} {ps qs : List Parcel}

theorem on_append : on c (ps ++ qs) = on c ps ++ on c qs := List.filter_append ..

theorem on_self : on p.connection [p] = [p] := by
  simp [on]

theorem connection_of_mem_on (h : p ∈ on c ps) : p.connection = c := by
  simpa using (List.mem_filter.mp h).2

theorem on_eq_nil (h : ∀ p ∈ ps, p.connection < c) : on c ps = [] := by
  refine List.filter_eq_nil_iff.mpr ?_
  intro p hp
  have hlt := h p hp
  simp only [decide_eq_true_eq]
  omega

end Parcel

/-- Of what the queues of a session took, what was delivered and what waits.  What is neither was
dropped. -/
structure Carried (accepted : List Parcel) (written : List (Nat × String)) (s : Session)
    (delivered waiting : List Parcel) : Prop where
  written : delivered.map Parcel.frame = written
  order : (delivered ++ waiting).Sublist accepted
  queue : waiting.map Parcel.payload = s.queue
  made : ∀ p ∈ accepted, p.connection ≤ s.connections
  inside : ∀ c, Parcel.on c delivered <+: Parcel.on c accepted
  current : s.place = .pumping →
    Parcel.on s.connections accepted = Parcel.on s.connections delivered ++ waiting

namespace Carried

variable {accepted delivered waiting : List Parcel} {written : List (Nat × String)}
  {s s' : Session}

theorem initial : Carried [] [] .initial [] [] where
  written := rfl
  order := .slnil
  queue := rfl
  made := nofun
  inside _ := List.prefix_rfl
  current := nofun

/-- A step that has nothing to do with the queue. -/
theorem rest (hd : Carried accepted written s delivered waiting) (hqueue : s'.queue = s.queue)
    (hconn : s'.connections = s.connections) (hplace : s'.place = .pumping → s.place = .pumping) :
    Carried accepted written s' delivered waiting where
  written := hd.written
  order := hd.order
  queue := by rw [hqueue, hd.queue]
  made := by rw [hconn]; exact hd.made
  inside := hd.inside
  current h := by rw [hconn]; exact hd.current (hplace h)

/-- The end of a connection.  What waited is dropped. -/
theorem finish (hd : Carried accepted written s delivered waiting) (reason : String) :
    Carried accepted written (s.finish reason) delivered [] where
  written := hd.written
  order := by
    rw [List.append_nil]
    exact (List.sublist_append_left delivered waiting).trans hd.order
  queue := rfl
  made := hd.made
  inside := hd.inside
  current := nofun

/-- A new connection, with a queue of its own. -/
theorem connect (hd : Carried accepted written s delivered waiting)
    (hconn : s'.connections = s.connections + 1) (hqueue : s'.queue = []) :
    Carried accepted written s' delivered [] where
  written := hd.written
  order := by
    rw [List.append_nil]
    exact (List.sublist_append_left delivered waiting).trans hd.order
  queue := hqueue.symm
  made p hp := by
    have hle := hd.made p hp
    omega
  inside := hd.inside
  current _ := by
    -- the number is new, so no queue of that number took anything yet
    have hnone : Parcel.on s'.connections accepted = [] := by
      refine Parcel.on_eq_nil ?_
      intro p hp
      have hle := hd.made p hp
      omega
    have hinside := hd.inside s'.connections
    rw [hnone, List.prefix_nil] at hinside
    rw [hnone, hinside]
    rfl

/-- The first of those that wait is written. -/
theorem write (hd : Carried accepted written s delivered waiting) (hplace : s.place = .pumping)
    {payload : String} {later : List String} (hqueue : s.queue = payload :: later) :
    ∃ p waiting', Carried accepted (written ++ [(s.connections, payload)])
      { s with queue := later } (delivered ++ [p]) waiting' := by
  obtain ⟨p, waiting', rfl, hpayload, hlater⟩ := List.map_eq_cons_iff.mp (hd.queue.trans hqueue)
  have hcurrent := hd.current hplace
  -- what waits was taken by the queue of this connection, and by no earlier one
  have hmem : p ∈ Parcel.on s.connections accepted := by
    rw [hcurrent]
    exact List.mem_append_right _ List.mem_cons_self
  have hconn := Parcel.connection_of_mem_on hmem
  have hsplit : Parcel.on s.connections accepted
      = Parcel.on s.connections (delivered ++ [p]) ++ waiting' := by
    rw [hcurrent, Parcel.on_append, ← hconn, Parcel.on_self, List.append_assoc]
    rfl
  refine ⟨p, waiting', ?_, ?_, hlater, hd.made, fun c => ?_, fun _ => hsplit⟩
  · rw [List.map_append, hd.written, List.map_singleton, Parcel.frame, hconn, hpayload]
  · rw [List.append_assoc]
    exact hd.order
  · by_cases hc : c = s.connections
    · rw [hc, hsplit]
      exact List.prefix_append _ _
    · have hother : Parcel.on c [p] = [] := by
        simp [Parcel.on, hconn, Ne.symm hc]
      rw [Parcel.on_append, hother, List.append_nil]
      exact hd.inside c

/-- A queue takes a frame. -/
theorem accept (hd : Carried accepted written s delivered waiting) {p : Parcel}
    (hplace : s.place = .pumping) (hconn : s.connections = p.connection) :
    Carried (accepted ++ [p]) written { s with queue := s.queue ++ [p.payload] } delivered
      (waiting ++ [p]) where
  written := hd.written
  order := by
    rw [← List.append_assoc]
    exact hd.order.append (List.Sublist.refl [p])
  queue := by
    rw [List.map_append, hd.queue]
    rfl
  made q hq := by
    rcases List.mem_append.mp hq with hq | hq
    · exact hd.made q hq
    · rw [List.mem_singleton.mp hq]
      exact Nat.le_of_eq hconn.symm
  inside c := by
    rw [Parcel.on_append]
    exact (hd.inside c).trans (List.prefix_append _ _)
  current _ := by
    show Parcel.on s.connections (accepted ++ [p])
      = Parcel.on s.connections delivered ++ (waiting ++ [p])
    rw [Parcel.on_append, hd.current hplace, hconn, Parcel.on_self, List.append_assoc]

/-- What a session carries on with. -/
theorem step (hd : Carried accepted written s delivered waiting)
    {frames : List (Nat × String)} (h : s.Handles s' frames) :
    ∃ delivered waiting, Carried accepted (written ++ frames) s' delivered waiting := by
  cases h with
  | nothing hqueue hconn hplace =>
    rw [List.append_nil]
    exact ⟨delivered, waiting, hd.rest hqueue hconn hplace⟩
  | opens hconn hqueue =>
    rw [List.append_nil]
    exact ⟨delivered, [], hd.connect hconn hqueue⟩
  | writes hplace hqueue =>
    obtain ⟨p, waiting', hwritten⟩ := hd.write hplace hqueue
    exact ⟨delivered ++ [p], waiting', hwritten⟩
  | ends reason =>
    rw [List.append_nil]
    exact ⟨delivered, [], hd.finish reason⟩
  | tears hplace hqueue reason =>
    obtain ⟨p, waiting', hwritten⟩ := hd.write hplace hqueue
    exact ⟨delivered ++ [p], [], hwritten.finish reason⟩

end Carried

/-! ## 3. Sends -/

/-- Sends are numbered as they begin, and each is accepted at most once. -/
structure Counted (accepted : List Parcel) (w : Wire) : Prop where
  once : (accepted.map Parcel.number).Nodup
  held : ∀ p ∈ w.held, p.number ∉ accepted.map Parcel.number
  apart : ∀ p ∈ w.held, ∀ q ∈ w.held, p.number = q.number → p = q
  begun : ∀ p, p ∈ accepted ∨ p ∈ w.held → p.number < w.begun

namespace Counted

variable {accepted : List Parcel} {w : Wire}

theorem initial : Counted [] .initial where
  once := List.nodup_nil
  held _ h := absurd h (Finset.notMem_empty _)
  apart _ h := absurd h (Finset.notMem_empty _)
  begun _ h := h.elim nofun fun h => absurd h (Finset.notMem_empty _)

/-- Fewer sends are between their steps, and no fewer were begun. -/
theorem mono (hc : Counted accepted w) {w' : Wire} (hheld : w'.held ⊆ w.held)
    (hbegun : w.begun ≤ w'.begun) : Counted accepted w' where
  once := hc.once
  held p hp := hc.held p (hheld hp)
  apart p hp q hq := hc.apart p (hheld hp) q (hheld hq)
  begun p hp := (hc.begun p (hp.imp_right (hheld ·))).trans_le hbegun

/-- A send begins, and finds a queue. -/
theorem find (hc : Counted accepted w) (payload : String) (c : Nat) : Counted accepted
    { w with begun := w.begun + 1, held := insert ⟨w.begun, payload, c⟩ w.held } where
  once := hc.once
  held p hp := by
    rcases Finset.mem_insert.mp hp with rfl | hp
    · intro hmem
      obtain ⟨q, hq, hnumber⟩ := List.mem_map.mp hmem
      exact absurd (hc.begun q (.inl hq)) (hnumber ▸ Nat.lt_irrefl _)
    · exact hc.held p hp
  apart p hp q hq heq := by
    have fresh : ∀ r ∈ w.held, r.number ≠ w.begun := fun r hr =>
      Nat.ne_of_lt (hc.begun r (.inr hr))
    rcases Finset.mem_insert.mp hp with rfl | hp <;> rcases Finset.mem_insert.mp hq with rfl | hq
    · rfl
    · exact absurd heq.symm (fresh q hq)
    · exact absurd heq (fresh p hp)
    · exact hc.apart p hp q hq heq
  begun p hp := by
    rcases hp with hp | hp
    · exact Nat.lt_succ_of_lt (hc.begun p (.inl hp))
    · rcases Finset.mem_insert.mp hp with rfl | hp
      · exact Nat.lt_succ_self _
      · exact Nat.lt_succ_of_lt (hc.begun p (.inr hp))

/-- The frame of a send is accepted. -/
theorem accept (hc : Counted accepted w) {p : Parcel} (hp : p ∈ w.held) (session : Session) :
    Counted (accepted ++ [p]) { w with session, held := w.held.erase p } where
  once := by
    rw [List.map_append, List.map_singleton]
    refine hc.once.append (List.nodup_singleton _) ?_
    rw [List.disjoint_singleton]
    exact hc.held p hp
  held q hq := by
    obtain ⟨hne, hq⟩ := Finset.mem_erase.mp hq
    rw [List.map_append, List.map_singleton, List.mem_append, List.mem_singleton]
    rintro (hmem | heq)
    · exact hc.held q hq hmem
    · exact hne (hc.apart q hq p hp heq)
  apart q hq r hr :=
    hc.apart q (Finset.mem_of_mem_erase hq) r (Finset.mem_of_mem_erase hr)
  begun q hq := by
    rcases hq with hq | hq
    · rcases List.mem_append.mp hq with hq | hq
      · exact hc.begun q (.inl hq)
      · rw [List.mem_singleton.mp hq]
        exact hc.begun p (.inr hp)
    · exact hc.begun q (.inr (Finset.mem_of_mem_erase hq))

end Counted

/-! ## 4. Runs -/

namespace Wire

variable {w w' : Wire} {d : Deed} {history : List Deed}

/-- What is told and heard in a step comes of a move of the session, or it is nothing. -/
theorem Step.speech (h : Step w d w') :
    (∃ hap effects, w.session.Move hap w'.session effects ∧
      d.told = effects.filterMap SessionEffect.event? ∧
      d.heard = (Deed.happened hap effects).heard) ∨
    (d.told = [] ∧ d.heard = [] ∧ w'.session.isOpen = w.session.isOpen ∧
      w'.session.connections = w.session.connections) := by
  cases h with
  | happen hstep => exact .inl ⟨_, _, Session.move_of_step? hstep, rfl, rfl⟩
  | torn _ hstep => exact .inl ⟨_, _, Session.move_of_step? hstep, rfl, rfl⟩
  | accept _ haccept =>
    obtain ⟨-, rfl⟩ := Session.enqueue_eq_ok.mp haccept
    exact .inr ⟨rfl, rfl, rfl, rfl⟩
  | close | miss | find | refuse => exact .inr ⟨rfl, rfl, rfl, rfl⟩

theorem Step.tells (h : Step w d w') : Tells w.session.isOpen d.told w'.session.isOpen := by
  rcases h.speech with ⟨hap, effects, hmove, htold, -⟩ | ⟨htold, -, hopen, -⟩
  · rw [htold]
    exact hmove.tells
  · rw [htold, hopen]
    exact .nothing _

theorem Step.connections (h : Step w d w') :
    w'.session.connections = w.session.connections + d.told.count .opened := by
  rcases h.speech with ⟨hap, effects, hmove, htold, -⟩ | ⟨htold, -, -, hconn⟩
  · rw [htold]
    exact hmove.connections
  · rw [htold, hconn]
    rfl

theorem Step.messages (h : Step w d w') : d.told.filterMap SessionEvent.message? = d.heard := by
  rcases h.speech with ⟨hap, effects, hmove, htold, hheard⟩ | ⟨htold, hheard, -, -⟩
  · rw [htold, hheard]
    exact hmove.messages
  · rw [htold, hheard]
    rfl

/-- What a step does to the queue, if it is not the queue that takes a frame. -/
theorem Step.handles (h : Step w d w') : w.session.Handles w'.session d.written ∧ d.accepted = [] ∨
    ∃ p ∈ w.held, ∃ session, d = .returned p (.ok ()) ∧
      w' = { w with session, held := w.held.erase p } ∧
      w.session.enqueue p.connection p.payload = .ok session := by
  cases h with
  | happen hstep => exact .inl ⟨(Session.move_of_step? hstep).handles, rfl⟩
  | torn hqueue hstep =>
    -- a failed write can only be the end of a connection that moves frames
    cases Session.move_of_step? hstep with
    | finish hplace hends =>
      cases hends
      exact .inl ⟨.tears hplace hqueue _, rfl⟩
  | accept hp haccept => exact .inr ⟨_, hp, _, rfl, rfl, haccept⟩
  | close | miss | find | refuse => exact .inl ⟨.nothing rfl rfl id, rfl⟩

theorem Step.carried {accepted : List Parcel} {written : List (Nat × String)}
    {delivered waiting : List Parcel} (h : Step w d w')
    (hd : Carried accepted written w.session delivered waiting) : ∃ delivered waiting,
    Carried (accepted ++ d.accepted) (written ++ d.written) w'.session delivered waiting := by
  rcases h.handles with ⟨hhandles, hnone⟩ | ⟨p, -, session, rfl, rfl, haccept⟩
  · rw [hnone, List.append_nil]
    exact hd.step hhandles
  · obtain ⟨⟨hplace, hconn⟩, rfl⟩ := Session.enqueue_eq_ok.mp haccept
    refine ⟨delivered, waiting ++ [p], ?_⟩
    rw [show (Deed.returned p (.ok ())).written = [] from rfl, List.append_nil]
    exact hd.accept hplace hconn

theorem Step.counted {accepted : List Parcel} (h : Step w d w') (hc : Counted accepted w) :
    Counted (accepted ++ d.accepted) w' := by
  have hnone : accepted = accepted ++ [] := (List.append_nil accepted).symm
  cases h with
  | accept hp => exact hc.accept hp _
  | find payload => exact hnone ▸ hc.find payload _
  | miss => exact hnone ▸ hc.mono (Finset.Subset.refl _) (Nat.le_succ _)
  | refuse => exact hnone ▸ hc.mono (Finset.erase_subset _ _) (Nat.le_refl _)
  | happen | torn | close => exact hnone ▸ hc.mono (Finset.Subset.refl _) (Nat.le_refl _)

theorem Step.mem_written {frame : Nat × String} (h : Step w d w') (hframe : frame ∈ d.written) :
    w.session.place = .pumping ∧ frame.1 = w.session.connections := by
  rcases h.handles with ⟨hhandles, -⟩ | ⟨p, -, session, rfl, -⟩
  · exact hhandles.mem hframe
  · exact nomatch hframe

theorem Run.talk (h : Run history w) : Talk w.session.isOpen (history.flatMap Deed.told) := by
  induction h with
  | start => exact .ended .nil
  | step _ hstep ih =>
    rw [List.flatMap_append, List.flatMap_singleton]
    exact ih.step hstep.tells

theorem Run.connections (h : Run history w) :
    (history.flatMap Deed.told).count .opened = w.session.connections := by
  induction h with
  | start => rfl
  | step _ hstep ih =>
    rw [List.flatMap_append, List.flatMap_singleton, List.count_append, ih, hstep.connections]

/-- Every connection that was told is closed, but for the last one if it is open. -/
theorem Run.balance (h : Run history w) : (history.flatMap Deed.told).count .opened
    = (history.flatMap Deed.told).countP SessionEvent.isClosing + w.session.isOpen.toNat := by
  induction h with
  | start => rfl
  | step _ hstep ih =>
    rw [List.flatMap_append, List.flatMap_singleton, List.count_append, List.countP_append]
    have hbalance := hstep.tells.balance
    omega

theorem Run.messages (h : Run history w) :
    (history.flatMap Deed.told).filterMap SessionEvent.message? = history.flatMap Deed.heard := by
  induction h with
  | start => rfl
  | step _ hstep ih =>
    rw [List.flatMap_append, List.flatMap_singleton, List.filterMap_append, ih, hstep.messages,
      List.flatMap_append, List.flatMap_singleton]

theorem Run.carried (h : Run history w) : ∃ delivered waiting,
    Carried (history.flatMap Deed.accepted) (history.flatMap Deed.written) w.session delivered
      waiting := by
  induction h with
  | start => exact ⟨[], [], .initial⟩
  | step _ hstep ih =>
    obtain ⟨delivered, waiting, hd⟩ := ih
    rw [List.flatMap_append, List.flatMap_singleton, List.flatMap_append, List.flatMap_singleton]
    exact hstep.carried hd

theorem Run.counted (h : Run history w) : Counted (history.flatMap Deed.accepted) w := by
  induction h with
  | start => exact .initial
  | step _ hstep ih =>
    rw [List.flatMap_append, List.flatMap_singleton]
    exact hstep.counted ih

/-- The order that the history of a session keeps. -/
structure InOrder (history : List Deed) : Prop where
  /-- Attempts follow one another, the last of which may be under way. -/
  attempts : ∃ word, Attempts word ∧ history.flatMap Deed.told <+: word
  /-- Each text frame is told once, as they come in. -/
  messages :
    (history.flatMap Deed.told).filterMap SessionEvent.message? = history.flatMap Deed.heard
  /-- No send is accepted twice, by one connection or by two. -/
  once : ((history.flatMap Deed.accepted).map Parcel.number).Nodup
  /-- What is written is some of what was accepted, each of them once, and on the connection that
  accepted it.  On each connection it is the beginning of what that accepted. -/
  delivered : ∃ delivered, delivered.Sublist (history.flatMap Deed.accepted) ∧
    delivered.map Parcel.frame = history.flatMap Deed.written ∧
    ∀ c, Parcel.on c delivered <+: Parcel.on c (history.flatMap Deed.accepted)
  /-- A frame on the connection `c` is written after the opening `c` was told, and before another
  opening or the closing `c` is. -/
  open_when_written : ∀ before d after frame, history = before ++ d :: after → frame ∈ d.written →
    (before.flatMap Deed.told).count .opened = frame.1 ∧
      (before.flatMap Deed.told).countP SessionEvent.isClosing + 1 = frame.1

/-- **A session keeps its order**, whatever happens to it, and however the steps of its owner and of
its senders fall between. -/
theorem session_order (h : Run history w) : InOrder history := by
  obtain ⟨delivered, waiting, hd⟩ := h.carried
  refine ⟨h.talk.completed, h.messages, h.counted.once,
    ⟨delivered, ?_, hd.written, hd.inside⟩, ?_⟩
  · exact (List.sublist_append_left delivered waiting).trans hd.order
  · rintro before d after frame rfl hframe
    obtain ⟨w₁, w₂, hbefore, hstep⟩ := h.split
    obtain ⟨hplace, hconn⟩ := hstep.mem_written hframe
    have hbalance := hbefore.balance
    rw [Session.isOpen_of_pumping hplace] at hbalance
    have hopenings := hbefore.connections
    refine ⟨hopenings.trans hconn.symm, ?_⟩
    rw [hconn, ← hopenings, hbalance]
    rfl

/-- A sender finds the queue of the first connection, and then that ends before its frame was
written; another one finds the queue too, and comes too late.  Only the frame of the first
connection that was written, and that of the second, go over the wire. -/
theorem session_order_reconnect : ∃ history w, Run history w ∧ InOrder history ∧
    history.flatMap Deed.told
      = [.opened, .message "hello", .closed "stream ended", .failed "refused", .opened] ∧
    history.flatMap Deed.accepted = [⟨0, "status", 1⟩, ⟨1, "quit", 1⟩, ⟨3, "status", 2⟩] ∧
    history.flatMap Deed.written = [(1, "status"), (2, "status")] := by
  have r₀ := Run.start
  have r₁ := r₀.step (.happen (h := .started) rfl)
  have r₂ := r₁.step (.happen (h := .connected) rfl)
  have r₃ := r₂.step (.find "status" rfl)
  have r₄ := r₃.step (.find "quit" rfl)
  have r₅ := r₄.step (.find "late" rfl)
  have r₆ := r₅.step (.accept (p := ⟨0, "status", 1⟩) (by decide) rfl)
  have r₇ := r₆.step (.accept (p := ⟨1, "quit", 1⟩) (by decide) rfl)
  have r₈ := r₇.step (.happen (h := .received (.text "hello")) rfl)
  have r₉ := r₈.step (.happen (h := .wrote) rfl)
  have r₁₀ := r₉.step (.happen (h := .streamEnded) rfl)
  have r₁₁ := r₁₀.step (.happen (h := .settled) rfl)
  have r₁₂ := r₁₁.step (.happen (h := .settled) rfl)
  have r₁₃ := r₁₂.step (.happen (h := .waited) rfl)
  have r₁₄ := r₁₃.step (.happen (h := .refused "refused") rfl)
  have r₁₅ := r₁₄.step (.happen (h := .settled) rfl)
  have r₁₆ := r₁₅.step (.happen (h := .waited) rfl)
  have r₁₇ := r₁₆.step (.happen (h := .connected) rfl)
  have r₁₈ := r₁₇.step (.refuse (p := ⟨2, "late", 1⟩) (by decide) rfl)
  have r₁₉ := r₁₈.step (.find "status" rfl)
  have r₂₀ := r₁₉.step (.accept (p := ⟨3, "status", 2⟩) (by decide) rfl)
  have r₂₁ := r₂₀.step (.happen (h := .wrote) rfl)
  exact ⟨_, _, r₂₁, session_order r₂₁, rfl, rfl, rfl⟩

end Wire
end ServerWarden.Rcon
