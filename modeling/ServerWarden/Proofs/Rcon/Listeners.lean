/-
# What listeners hear

A frame that comes in has one of three effects.  A text that is no frame is dropped.  An
announcement goes to each listener that there is by then, in the order in which they were added, and
leaves the table alone, even if a command waits under its identifier.  Any other frame is a reply:
no listener hears it, and it takes out of the table what is there under its own identifier and
nothing else.

Listeners run one after the other, and not inside the client.  While one runs, anything else may go
on: commands begin and end, and listeners are added, by the one that runs or by anyone.  So
`Audience` is the traffic of a console with the calls that the frame in hand still asks for beside
it, and the next frame is taken in when none of them is left.

What listeners hear is told by the history alone.  `owed` has one call for each announcement and
each listener that was added before it, and `Run.heard_append_due` is the law of a whole run: what
was heard, followed by what is still due, is what is owed.
-/
import ServerWarden.Proofs.Rcon.Table

namespace ServerWarden.Rcon

variable {α : Type}

/-! ## 1. The system -/

/-- A call of a listener with a text. -/
abbrev Call (α : Type) := α × String

/-- The calls that a delivery asks for. -/
def Delivery.calls (text : String) : Delivery α → List (Call α)
  | .broadcast listeners => listeners.map (·, text)
  | _ => []

/-- Whether a frame came in. -/
def Event.isArrival : Event α → Bool
  | .arrived .. => true
  | _ => false

/-- The listener that was added. -/
def Event.listener? : Event α → Option α
  | .listened listener => some listener
  | _ => none

/-- What happens at a console whose listeners run. -/
inductive Hearing (α : Type) where
  | event (e : Event α)
  /-- A listener was called. -/
  | heard (call : Call α)

/-- Traffic, and the calls that the frame in hand still asks for. -/
structure Audience (α : Type) where
  traffic : Traffic α
  due : List (Call α)

namespace Audience

/-- **One step.**  A frame is taken in when no call is left of the one before.  All else goes on
between any two calls. -/
inductive Step (source : Nat → Int) : Audience α → Hearing α → Audience α → Prop where
  | goOn {s : Audience α} {e : Event α} {traffic : Traffic α} : e.isArrival = false →
      Traffic.Step source s.traffic e traffic → Step source s (.event e) { s with traffic }
  | takeIn {s : Audience α} {now : Instant} {text : String} {delivery : Delivery α}
      {traffic : Traffic α} : s.due = [] →
      Traffic.Step source s.traffic (.arrived now text delivery) traffic →
      Step source s (.event (.arrived now text delivery)) ⟨traffic, delivery.calls text⟩
  | call {s : Audience α} {call : Call α} {rest : List (Call α)} : s.due = call :: rest →
      Step source s (.heard call) { s with due := rest }

/-- **A run** from the connect on, with its history. -/
inductive Run (source : Nat → Int) (settings : Settings) :
    List (Hearing α) → Audience α → Prop where
  | start (isOpen : Bool) : Run source settings [] ⟨.initial settings isOpen, []⟩
  | step {events : List (Hearing α)} {e : Hearing α} {s s' : Audience α} :
      Run source settings events s → Step source s e s' → Run source settings (events ++ [e]) s'

end Audience

/-! ## 2. What a history owes -/

/-- An announcement is marked by its identifier, which is zero or that of chat, or by its type. -/
def Frame.Announces (settings : Settings) (f : Frame) : Prop :=
  f.identifier = 0 ∨ f.identifier = settings.chatIdentifier ∨ f.kind = some "Chat"

theorem Frame.announces_iff {settings : Settings} {f : Frame} :
    f.Announces settings ↔ f.isBroadcast settings.chatIdentifier = true := by
  simp [Announces, isBroadcast, broadcastIdentifier, chatType, or_assoc]

/-- Whether a text is an announcement. -/
def Settings.announces (settings : Settings) (text : String) : Bool :=
  (Frame.read? text).any (·.isBroadcast settings.chatIdentifier)

namespace Hearing

/-- The announcement that came in. -/
def announcement? (settings : Settings) : Hearing α → Option String
  | .event (.arrived _ text _) => if settings.announces text then some text else none
  | _ => none

/-- The listener that was added. -/
def listener? : Hearing α → Option α
  | .event e => e.listener?
  | .heard _ => none

/-- The call that was made. -/
def call? : Hearing α → Option (Call α)
  | .heard call => some call
  | .event _ => none

/-- The calls that an event asks for when the given listeners are there. -/
def calls (settings : Settings) (present : List α) (e : Hearing α) : List (Call α) :=
  (e.announcement? settings).toList.flatMap fun text => present.map (·, text)

end Hearing

/-- The listeners of a history, in the order in which they were added. -/
def listeners (events : List (Hearing α)) : List α := events.filterMap Hearing.listener?

/-- The calls of a history, in their order. -/
def heard (events : List (Hearing α)) : List (Call α) := events.filterMap Hearing.call?

/-- The calls that a history owes after other listeners were added. -/
def owedAfter (settings : Settings) : List α → List (Hearing α) → List (Call α)
  | _, [] => []
  | present, e :: rest =>
    e.calls settings present ++ owedAfter settings (present ++ e.listener?.toList) rest

/-- **What a history owes**: for each announcement, in the order in which they came in, one call of
each listener that was added before. -/
def owed (settings : Settings) (events : List (Hearing α)) : List (Call α) :=
  owedAfter settings [] events

variable {settings : Settings} {events : List (Hearing α)} {e : Hearing α}

theorem listeners_append : listeners (events ++ [e]) = listeners events ++ e.listener?.toList := by
  rw [listeners, List.filterMap_append, listeners]
  cases h : e.listener? <;> simp [h]

theorem heard_append : heard (events ++ [e]) = heard events ++ e.call?.toList := by
  rw [heard, List.filterMap_append, heard]
  cases h : e.call? <;> simp [h]

theorem owedAfter_append (present : List α) : owedAfter settings present (events ++ [e])
    = owedAfter settings present events ++ e.calls settings (present ++ listeners events) := by
  induction events generalizing present with
  | nil => simp [owedAfter, listeners]
  | cons first rest ih =>
    have hfirst : listeners (first :: rest) = first.listener?.toList ++ listeners rest := by
      cases h : first.listener? <;> simp [listeners, h]
    rw [List.cons_append, owedAfter, ih, owedAfter, hfirst, List.append_assoc, List.append_assoc]

theorem owed_append :
    owed settings (events ++ [e]) = owed settings events ++ e.calls settings (listeners events) :=
  owedAfter_append []

/-! ## 3. What a frame does -/

namespace Client

variable (c : Client α) {text : String} {f : Frame}

theorem dispatch_malformed (h : Frame.read? text = none) :
    c.dispatch text = (.malformed, c) := by
  simp [dispatch, h]

theorem dispatch_announcement (h : Frame.read? text = some f) (hf : f.Announces c.settings) :
    c.dispatch text = (.broadcast c.listeners, c) := by
  simp [dispatch, h, Frame.announces_iff.mp hf]

/-- A reply asks for no call, and takes out what is in the table under its identifier. -/
theorem dispatch_reply (h : Frame.read? text = some f) (hf : ¬ f.Announces c.settings) :
    (c.dispatch text).1.calls text = [] ∧
    (c.dispatch text).2.pending = c.pending.filter (·.1 != f.identifier) := by
  have hb : f.isBroadcast c.settings.chatIdentifier = false :=
    Bool.eq_false_iff.mpr fun hb => hf (Frame.announces_iff.mpr hb)
  rw [dispatch]
  simp only [h, hb, Bool.false_eq_true, if_false]
  cases hp : c.pending.lookup f.identifier with
  | some p => exact ⟨rfl, rfl⟩
  | none =>
    refine ⟨rfl, (List.filter_eq_self.mpr fun entry hentry => ?_).symm⟩
    have hne := List.lookup_eq_none_iff.mp hp entry hentry
    exact bne_iff_ne.mpr (Ne.symm (bne_iff_ne.mp hne))

/-- No frame adds or drops a listener. -/
theorem dispatch_listeners (text : String) : (c.dispatch text).2.listeners = c.listeners := by
  rcases c.dispatch_cases text with ⟨hc, -⟩ | ⟨f, p, -, -, hd⟩
  · exact congrArg Client.listeners hc
  · rw [hd]

theorem dispatch_settings (text : String) : (c.dispatch text).2.settings = c.settings := by
  rcases c.dispatch_cases text with ⟨hc, -⟩ | ⟨f, p, -, -, hd⟩
  · exact congrArg Client.settings hc
  · rw [hd]

/-- The calls that a frame asks for. -/
theorem calls_dispatch (now : Instant) (text : String) : (c.dispatch text).1.calls text
    = (Hearing.event (.arrived now text (c.dispatch text).1)).calls c.settings c.listeners := by
  cases h : Frame.read? text with
  | none => simp [c.dispatch_malformed h, Delivery.calls, Hearing.calls, Hearing.announcement?,
      Settings.announces, h]
  | some f =>
    by_cases hf : f.Announces c.settings
    · have hb := Frame.announces_iff.mp hf
      simp [c.dispatch_announcement h hf, Delivery.calls, Hearing.calls, Hearing.announcement?,
        Settings.announces, h, hb]
    · have hb : ¬ f.isBroadcast c.settings.chatIdentifier = true :=
        fun hb => hf (Frame.announces_iff.mpr hb)
      simp [(c.dispatch_reply h hf).1, Hearing.calls, Hearing.announcement?, Settings.announces, h,
        hb]

end Client

namespace Traffic

variable {source : Nat → Int} {s s' : Traffic α} {e : Event α}

/-- Only the adding of a listener changes who listens, and nothing changes the settings. -/
theorem Step.listens (h : Step source s e s') :
    s'.client.listeners = s.client.listeners ++ e.listener?.toList ∧
    s'.client.settings = s.client.settings := by
  have same : s.client.listeners = s.client.listeners ++ (none : Option α).toList := by simp
  cases h with
  | pass _ => exact ⟨same, rfl⟩
  | switch isOpen => exact ⟨same, rfl⟩
  | listen listener => exact ⟨rfl, rfl⟩
  | arrive text =>
    exact ⟨(s.client.dispatch_listeners text).trans same, s.client.dispatch_settings text⟩
  | begin ho =>
    rcases Client.open?_cases ho with ⟨-, rfl⟩ | ⟨t, n, -, -, -, -, -, -, hr⟩
    · exact ⟨same, rfl⟩
    · obtain ⟨-, -, rfl⟩ := Client.register?_eq_some hr
      exact ⟨same, rfl⟩
  | transmit deadline queued hc => exact ⟨same, rfl⟩
  | await hc => exact ⟨same, rfl⟩
  | leave hc => exact ⟨same, rfl⟩
  | @drop t call hc ht =>
    have hl : (s.finish call).client = s.client.release t := leave_of_ticket? ht s.client
    rw [hl]
    exact ⟨same, rfl⟩

end Traffic

/-! ## 4. What is heard in a run -/

namespace Audience

variable {source : Nat → Int} {s s' : Audience α}

theorem Step.same_settings (h : Step source s e s') :
    s'.traffic.client.settings = s.traffic.client.settings := by
  cases h with
  | goOn _ hs => exact hs.listens.2
  | takeIn _ hs => exact hs.listens.2
  | call _ => rfl

theorem Run.same_settings (h : Run source settings events s) :
    s.traffic.client.settings = settings := by
  induction h with
  | start isOpen => rfl
  | step _ hs ih => exact hs.same_settings.trans ih

/-- The client's listeners are those of the history. -/
theorem Run.listeners (h : Run source settings events s) :
    s.traffic.client.listeners = listeners events := by
  induction h with
  | start isOpen => rfl
  | @step events e s s' _ hs ih =>
    rw [listeners_append, ← ih]
    cases hs with
    | goOn _ hs => exact hs.listens.1
    | takeIn _ hs => exact hs.listens.1
    | call _ => exact (List.append_nil _).symm

/-- What was heard, followed by what is still due, is what is owed. -/
theorem Run.heard_append_due (h : Run source settings events s) :
    heard events ++ s.due = owed settings events := by
  induction h with
  | start isOpen => rfl
  | @step events e s s' hr hs ih =>
    rw [heard_append, owed_append, ← ih]
    cases hs with
    | @goOn e traffic harrival hs =>
      have hnone : (Hearing.event e).calls settings (Rcon.listeners events) = [] := by
        cases e with
        | arrived => exact nomatch harrival
        | _ => rfl
      rw [hnone, List.append_nil]
      exact congrArg (· ++ s.due) (List.append_nil _)
    | @takeIn now text delivery traffic hdue hs =>
      cases hs with
      | arrive =>
        have hcalls := s.traffic.client.calls_dispatch s.traffic.now text
        rw [hr.same_settings, hr.listeners] at hcalls
        rw [hdue, List.append_nil, ← hcalls]
        exact congrArg (· ++ _) (List.append_nil _)
    | @call call rest hdue =>
      have hnone : (Hearing.heard call).calls settings (Rcon.listeners events) = [] := rfl
      rw [hdue, hnone, List.append_nil]
      exact List.append_assoc _ [call] rest

/-- **Each frame has one effect**, in every run, whatever else goes on.  When it is taken in,
everything that was owed before has been heard, and the listeners stay who they are.  A text that is
no frame changes nothing, an announcement is due to each listener that was added before and changes
nothing, and a reply is due to none and takes at most its own entry out of the table.  Over the
whole run, what was heard and what is still due is what is owed. -/
theorem each_frame_one_effect (h : Run source settings events s) :
    (∀ now text delivery s', Step source s (.event (.arrived now text delivery)) s' →
      heard events = owed settings events ∧
      s'.traffic.client.listeners = s.traffic.client.listeners ∧
      (Frame.read? text = none → s'.traffic.client = s.traffic.client ∧ s'.due = []) ∧
      (∀ f, Frame.read? text = some f → f.Announces settings →
        s'.traffic.client = s.traffic.client ∧ s'.due = (listeners events).map (·, text)) ∧
      (∀ f, Frame.read? text = some f → ¬ f.Announces settings → s'.due = [] ∧
        s'.traffic.client.pending = s.traffic.client.pending.filter (·.1 != f.identifier))) ∧
    (∀ listener s', Step source s (.event (.listened listener)) s' → s'.due = s.due) ∧
    heard events ++ s.due = owed settings events := by
  refine ⟨?_, ?_, h.heard_append_due⟩
  · intro now text delivery s' hs
    cases hs with
    | goOn harrival => exact nomatch harrival
    | takeIn hdue hs =>
      cases hs with
      | arrive text =>
        have hall := h.heard_append_due
        rw [hdue, List.append_nil] at hall
        refine ⟨hall, s.traffic.client.dispatch_listeners text, ?_, ?_, ?_⟩
        · intro hread
          rw [s.traffic.client.dispatch_malformed hread]
          exact ⟨rfl, rfl⟩
        · intro f hread hf
          rw [← h.same_settings] at hf
          rw [s.traffic.client.dispatch_announcement hread hf, ← h.listeners]
          exact ⟨rfl, rfl⟩
        · intro f hread hf
          rw [← h.same_settings] at hf
          exact s.traffic.client.dispatch_reply hread hf
  · intro listener s' hs
    cases hs with
    | goOn _ hs => rfl

/-- A line of chat under the identifier seven. -/
def taggedChat : String := "\x7b\"Identifier\":7,\"Message\":\"hi\",\"Type\":\"Chat\"\x7d"

/-- A notice to all. -/
def notice : String := "\x7b\"Identifier\":0,\"Message\":\"restart soon\"\x7d"

/-- While a command waits under the identifier seven, a line of chat comes in under it.  The
listener that hears it adds another one, which first hears the notice that comes next. -/
theorem each_frame_one_effect_late : ∃ (events : List (Hearing String)) (s : Audience String),
    Run Traffic.sevens Traffic.quietSettings events s ∧
    heard events = [("early", taggedChat), ("early", notice), ("late", notice)] ∧
    s.due = [] ∧ s.traffic.client.pending.lookup 7 = some ⟨0, 0⟩ := by
  have r₀ : Run Traffic.sevens Traffic.quietSettings [] (⟨.initial Traffic.quietSettings true, []⟩ :
      Audience String) := .start true
  have r₁ := r₀.step (.goOn rfl (.listen _ "early"))
  have r₂ := r₁.step (e := .event (.begun (.ofSecs 1) (.registered (Traffic.seventh 0))))
    (.goOn rfl (.begin (show Client.open? _ _ 2 _ _ _ = some (_, 2, _) from rfl)))
  have r₃ := r₂.step (.takeIn rfl (.arrive _ taggedChat))
  have r₄ := r₃.step (.call (show _ = [("early", taggedChat)] by decide +kernel))
  have r₅ := r₄.step (.goOn rfl (.listen _ "late"))
  have r₆ := r₅.step (.takeIn rfl (.arrive _ notice))
  have r₇ := r₆.step (.call (show _ = [("early", notice), ("late", notice)] by decide +kernel))
  have r₈ := r₇.step (.call (show _ = [("late", notice)] from rfl))
  have law := (each_frame_one_effect r₈).2.2
  rw [List.append_nil] at law
  exact ⟨_, _, r₈, law.trans (by decide +kernel), rfl, by decide +kernel⟩

end Audience
end ServerWarden.Rcon
