/-
# The waits between attempts

A session that is not closed dials again and again, and waits after each attempt, whether it failed
or a connection was made that ended later.  `Wire.Dials` is any run with the attempts and waits of
its session in their order, and `Wire.Paced` is what such a run keeps: attempts and waits take turns,
and the next wait is known from the number of waits since the last connection (`waitsSince`).

`Wire.dials_lawful` is the law of the waits.  The wait after `m` waits is `2 ^ m` seconds or half a
minute, whichever is shorter, and a connection sets `m` back to nothing.
-/
import Mathlib.Algebra.Order.Ring.Nat
import ServerWarden.Proofs.Rcon.Wire

namespace ServerWarden

namespace Duration

theorem ofSecs_le_ofSecs {a b : Nat} : ofSecs a ≤ ofSecs b ↔ a ≤ b :=
  Nat.mul_le_mul_right_iff (by decide)

theorem ofSecs_lt_ofSecs {a b : Nat} : ofSecs a < ofSecs b ↔ a < b :=
  Nat.mul_lt_mul_right (by decide)

theorem ofSecs_add_ofSecs (a b : Nat) : ofSecs a + ofSecs b = ofSecs (a + b) :=
  congrArg Duration.mk (Nat.add_mul a b _).symm

end Duration

namespace Rcon

/-! ## 1. Attempts and waits -/

/-- What a session does about its connection. -/
inductive Dial where
  /-- No connection could be made. -/
  | refused
  /-- A connection was made. -/
  | connected
  /-- A wait was begun. -/
  | waits (d : Duration)
  deriving DecidableEq

def Dial.isWait : Dial → Bool
  | .waits _ => true
  | _ => false

/-- How many waits were begun since the last connection, or since the beginning. -/
def waitsSince (dials : List Dial) : Nat :=
  (dials.reverse.takeWhile (· ≠ .connected)).countP Dial.isWait

/-- The wait after a number of waits. -/
def pause (waits : Nat) : Duration := .ofSecs (min (2 ^ waits) 30)

variable {dials mid : List Dial} {d : Duration}

@[simp] theorem waitsSince_connected : waitsSince (dials ++ [.connected]) = 0 := by
  simp [waitsSince]

@[simp] theorem waitsSince_refused : waitsSince (dials ++ [.refused]) = waitsSince dials := by
  have hwait : Dial.refused.isWait = false := rfl
  simp [waitsSince, hwait]

@[simp] theorem waitsSince_waits : waitsSince (dials ++ [.waits d]) = waitsSince dials + 1 := by
  have hwait : (Dial.waits d).isWait = true := rfl
  simp [waitsSince, hwait]

/-- Waits add up as long as no connection is made. -/
theorem waitsSince_append (h : .connected ∉ mid) :
    waitsSince (dials ++ mid) = waitsSince dials + mid.countP Dial.isWait := by
  have hmid : ∀ x ∈ mid.reverse, decide (x ≠ .connected) = true := by
    intro x hx
    have hne : x ≠ .connected := by
      rintro rfl
      exact h (List.mem_reverse.mp hx)
    simpa using hne
  rw [waitsSince, List.reverse_append, List.takeWhile_append_of_pos hmid, List.countP_append,
    List.countP_reverse, Nat.add_comm, waitsSince]

theorem pause_bounds (m : Nat) : Duration.ofSecs 1 ≤ pause m ∧ pause m ≤ Duration.ofSecs 30 := by
  have hpos : 0 < 2 ^ m := Nat.two_pow_pos m
  simp only [pause, Duration.ofSecs_le_ofSecs]
  omega

theorem pause_mono {m n : Nat} (h : m ≤ n) : pause m ≤ pause n := by
  have hpow : 2 ^ m ≤ 2 ^ n := Nat.pow_le_pow_right (by decide) h
  simp only [pause, Duration.ofSecs_le_ofSecs]
  omega

/-- **Waits double, up to the longest.** -/
theorem doubled_pause (m : Nat) : Session.doubled (pause m) = pause (m + 1) := by
  have hpow : 2 ^ (m + 1) = 2 * 2 ^ m := Nat.pow_succ'
  simp only [Session.doubled, Session.longestWait, pause, Duration.ofSecs_add_ofSecs,
    Duration.ofSecs_lt_ofSecs, hpow]
  split
  · congr 1
    omega
  · congr 1
    omega

/-! ## 2. Runs with their attempts and waits -/

/-- What a deed is to the connection, if the session is `after` it. -/
def Deed.dial? (after : Session) : Deed → Option Dial
  | .happened (.refused _) _ => some .refused
  | .happened .connected _ => some .connected
  | .happened .settled _ =>
    match after.place with
    | .waiting d => some (.waits d)
    | _ => none
  | _ => none

namespace Wire

/-- **A run** from the beginning on, with the attempts and waits of its session. -/
inductive Dials : List Dial → Wire → Prop where
  | start : Dials [] initial
  | step {dials : List Dial} {w w' : Wire} {deed : Deed} : Dials dials w → Step w deed w' →
      Dials (dials ++ (deed.dial? w'.session).toList) w'

/-- Every run has its attempts and waits. -/
theorem Run.exists_dials {history : List Deed} {w : Wire} (h : Run history w) :
    ∃ dials, Dials dials w := by
  induction h with
  | start => exact ⟨[], .start⟩
  | step _ hstep ih =>
    obtain ⟨dials, hdials⟩ := ih
    exact ⟨_, hdials.step hstep⟩

end Wire

/-- Where a session stands between attempts and waits. -/
inductive Stage where
  /-- An attempt is next. -/
  | ready
  /-- An attempt was made, and the wait after it is next. -/
  | spent
  | waiting
  | over

def Session.stage (s : Session) : Stage :=
  match s.place with
  | .idle | .dialing => .ready
  | .pumping | .ended _ | .decided => .spent
  | .waiting _ => .waiting
  | .over => .over

/-! ## 3. The law of the waits -/

/-- Attempts and waits take turns, and each wait is as long as the waits before it say. -/
structure Lawful (dials : List Dial) : Prop where
  turns : ∀ i x, dials[i]? = some x → (x.isWait = true ↔ i % 2 = 1)
  law : ∀ before d after, dials = before ++ .waits d :: after → d = pause (waitsSince before)

/-- One more attempt or wait. -/
theorem Lawful.append {x : Dial} (h : Lawful dials)
    (hturn : x.isWait = true ↔ dials.length % 2 = 1)
    (hlaw : ∀ d, x = .waits d → d = pause (waitsSince dials)) : Lawful (dials ++ [x]) where
  turns i y hy := by
    rcases Nat.lt_or_ge i dials.length with hi | hi
    · rw [List.getElem?_append_left hi] at hy
      exact h.turns i y hy
    · rw [List.getElem?_append_right hi, List.getElem?_singleton] at hy
      split at hy
      · next hlast =>
        cases hy
        rwa [show i = dials.length by omega]
      · exact nomatch hy
  law before d after heq := by
    rcases cut_of_concat heq.symm with ⟨rfl, hx, -⟩ | ⟨rest, -, hrest⟩
    · exact hlaw d hx.symm
    · exact h.law before d rest hrest.symm

/-- **What a session keeps** beside its attempts and waits. -/
structure Paced (dials : List Dial) (s : Session) : Prop extends Lawful dials where
  ready : s.stage = .ready → dials.length % 2 = 0 ∧ s.nextWait = pause (waitsSince dials)
  spent : s.stage = .spent → dials.length % 2 = 1 ∧ s.nextWait = pause (waitsSince dials)
  waiting : s.stage = .waiting → dials.length % 2 = 0 ∧
    ∃ m, waitsSince dials = m + 1 ∧ s.nextWait = pause m

namespace Paced

variable {s s' : Session} {h : Happening} {effects : List SessionEffect} {deed : Deed}

theorem initial : Paced [] .initial where
  turns := nofun
  law before d after heq := by simp at heq
  ready _ := by
    refine ⟨rfl, ?_⟩
    show Duration.ofSecs 1 = pause 0
    simp [pause]
  spent := nofun
  waiting := nofun

/-- A step that has nothing to do with attempts. -/
theorem rest (hp : Paced dials s) (hdial : deed.dial? s' = none) (hstage : s'.stage = s.stage)
    (hnext : s'.nextWait = s.nextWait) : Paced (dials ++ (deed.dial? s').toList) s' := by
  rw [hdial, Option.toList_none, List.append_nil]
  constructor
  · exact hp.toLawful
  · rw [hstage, hnext]
    exact hp.ready
  · rw [hstage, hnext]
    exact hp.spent
  · rw [hstage, hnext]
    exact hp.waiting

/-- The session is over. -/
theorem quit (hp : Paced dials s) (hdial : deed.dial? s' = none) (hstage : s'.stage = .over) :
    Paced (dials ++ (deed.dial? s').toList) s' := by
  rw [hdial, Option.toList_none, List.append_nil]
  constructor
  · exact hp.toLawful
  all_goals
    intro hother
    exact nomatch hstage.symm.trans hother

/-- An attempt. -/
theorem attempt (hp : Paced dials s) {x : Dial} (hready : s.stage = .ready)
    (hdial : deed.dial? s' = some x) (hx : x.isWait = false) (hstage : s'.stage = .spent)
    (hnext : s'.nextWait = pause (waitsSince (dials ++ [x]))) :
    Paced (dials ++ (deed.dial? s').toList) s' := by
  obtain ⟨heven, -⟩ := hp.ready hready
  rw [hdial, Option.toList_some]
  constructor
  · refine hp.toLawful.append (by simp [hx, heven]) ?_
    rintro d rfl
    exact nomatch hx
  · intro hother
    exact nomatch hstage.symm.trans hother
  · intro _
    refine ⟨?_, hnext⟩
    rw [List.length_append, List.length_singleton]
    omega
  · intro hother
    exact nomatch hstage.symm.trans hother

/-- A wait. -/
theorem wait (hp : Paced dials s) (hspent : s.stage = .spent)
    (hdial : deed.dial? s' = some (.waits s.nextWait)) (hstage : s'.stage = .waiting)
    (hnext : s'.nextWait = s.nextWait) : Paced (dials ++ (deed.dial? s').toList) s' := by
  obtain ⟨hodd, hpause⟩ := hp.spent hspent
  rw [hdial, Option.toList_some]
  constructor
  · refine hp.toLawful.append (by simp [Dial.isWait, hodd]) ?_
    intro d hd
    cases hd
    exact hpause
  · intro hother
    exact nomatch hstage.symm.trans hother
  · intro hother
    exact nomatch hstage.symm.trans hother
  · intro _
    refine ⟨?_, waitsSince dials, waitsSince_waits, hnext.trans hpause⟩
    rw [List.length_append, List.length_singleton]
    omega

/-- The end of a wait. -/
theorem resume (hp : Paced dials s) (hwaiting : s.stage = .waiting) (hdial : deed.dial? s' = none)
    (hstage : s'.stage = .ready) (hnext : s'.nextWait = Session.doubled s.nextWait) :
    Paced (dials ++ (deed.dial? s').toList) s' := by
  obtain ⟨heven, m, hm, hpause⟩ := hp.waiting hwaiting
  rw [hdial, Option.toList_none, List.append_nil]
  constructor
  · exact hp.toLawful
  · intro _
    refine ⟨heven, ?_⟩
    rw [hnext, hpause, doubled_pause, hm]
  · intro hother
    exact nomatch hstage.symm.trans hother
  · intro hother
    exact nomatch hstage.symm.trans hother

/-- **One happening.** -/
theorem move (hp : Paced dials s) (hmove : Session.Move s h s' effects) :
    Paced (dials ++ ((Deed.happened h effects).dial? s').toList) s' := by
  cases hmove with
  | start hplace => exact hp.rest rfl (by simp [Session.stage, hplace]) rfl
  | connect hplace =>
    refine hp.attempt (by simp [Session.stage, hplace]) rfl rfl rfl ?_
    show Session.firstWait = _
    simp [Session.firstWait, pause]
  | fail why hplace =>
    have hready : s.stage = .ready := by simp [Session.stage, hplace]
    refine hp.attempt hready rfl rfl rfl ?_
    rw [waitsSince_refused]
    exact (hp.ready hready).2
  | hear text | ignore => exact hp.rest rfl rfl rfl
  | write hplace => exact hp.rest rfl (by simp [Session.stage, hplace]) rfl
  | @finish _ reason _ hplace hends =>
    have hstage : (s.finish reason).stage = s.stage := by
      simp [Session.stage, Session.finish, hplace]
    refine hp.rest ?_ hstage rfl
    cases hends <;> rfl
  | notice reason hplace => exact hp.rest rfl (by simp [Session.stage, hplace]) rfl
  | pause hplace => exact hp.wait (by simp [Session.stage, hplace]) rfl rfl rfl
  | stop hplace => exact hp.quit rfl rfl
  | resume d hplace => exact hp.resume (by simp [Session.stage, hplace]) rfl rfl rfl
  | abandon => exact hp.quit rfl rfl

end Paced

namespace Wire

variable {w w' : Wire} {deed : Deed}

/-- **One step** of anyone. -/
theorem Step.paced (h : Step w deed w') (hp : Paced dials w.session) :
    Paced (dials ++ (deed.dial? w'.session).toList) w'.session := by
  cases h with
  | happen hstep => exact hp.move (Session.move_of_step? hstep)
  | torn _ hstep =>
    have hpaced := hp.move (Session.move_of_step? hstep)
    exact hpaced
  | close | miss | find | refuse => exact hp.rest rfl rfl rfl
  | accept _ haccept =>
    obtain ⟨-, rfl⟩ := Session.enqueue_eq_ok.mp haccept
    exact hp.rest rfl rfl rfl

/-- **A whole run.** -/
theorem Dials.paced (h : Dials dials w) : Paced dials w.session := by
  induction h with
  | start => exact .initial
  | step _ hstep ih => exact hstep.paced ih

end Wire

/-! ## 4. Every attempt is followed by its wait -/

namespace Session

variable {s s' : Session} {h : Happening} {effects : List SessionEffect}

/-- Whether an attempt is over, be it that no connection was made or that it has ended. -/
def IsIdleAgain (s : Session) : Prop :=
  s.place = .decided ∨ ∃ reason, s.place = .ended reason

theorem IsIdleAgain.stage (h : s.IsIdleAgain) : s.stage = .spent := by
  rcases h with h | ⟨reason, h⟩ <;> simp [Session.stage, h]

/-- Nothing comes between an attempt and its wait. -/
theorem IsIdleAgain.settles (hs : s.IsIdleAgain) (hstep : s.step? h = some (s', effects)) :
    h = .settled := by
  have hmove := move_of_step? hstep
  cases hmove with
  | notice | pause | stop => rfl
  | start hplace | connect hplace | fail _ hplace | hear _ hplace | ignore hplace
  | write hplace | finish hplace | resume _ hplace =>
    rcases hs with hs | ⟨reason, hs⟩ <;> simp [hs] at hplace
  | abandon hplace =>
    rcases hs with hs | ⟨reason, hs⟩ <;> simp [hs] at hplace

/-- **The wait comes.** -/
theorem IsIdleAgain.waits (hs : s.IsIdleAgain) (hopen : s.isClosed = false) :
    ∃ n s' effects, s.steps? (List.replicate n .settled) = some (s', effects) ∧
      s'.place = .waiting s.nextWait := by
  rcases hs with hs | ⟨reason, hs⟩
  · refine ⟨1, { s with place := .waiting s.nextWait }, [], ?_, rfl⟩
    simp [steps?, step?, hs, hopen]
  · refine ⟨2, { s with place := .waiting s.nextWait, state := .disconnected, outbound := none },
      [.tell (.closed reason)], ?_, rfl⟩
    simp [steps?, step?, hs, hopen, List.replicate]

/-- Several happenings in a row, with the attempts and waits among them. -/
def play? (s : Session) : List Happening → Option (List Dial × Session)
  | [] => some ([], s)
  | h :: rest => do
    let (s, effects) ← s.step? h
    let (dials, t) ← s.play? rest
    return (((Deed.happened h effects).dial? s).toList ++ dials, t)

/-- One way for an attempt to go, up to the end of the wait after it. -/
def course : Dial → List Happening
  | .connected => [.connected, .streamEnded, .settled, .settled, .waited]
  | _ => [.refused "connection refused", .settled, .waited]

theorem play?_append {hs more : List Happening} {dials dials' : List Dial} {t u : Session}
    (h : s.play? hs = some (dials, t)) (hmore : t.play? more = some (dials', u)) :
    s.play? (hs ++ more) = some (dials ++ dials', u) := by
  induction hs generalizing s dials with
  | nil =>
    cases h
    exact hmore
  | cons first hs ih =>
    simp only [play?, List.cons_append, Option.bind_eq_bind, Option.bind_eq_some_iff] at h ⊢
    obtain ⟨⟨v, effects⟩, hstep, ⟨later, t'⟩, hplay, heq⟩ := h
    cases heq
    exact ⟨(v, effects), hstep, (later ++ dials', u), ih hplay, by simp⟩

/-- An attempt and the wait after it. -/
theorem play?_course {x : Dial} (hx : x.isWait = false) (hplace : s.place = .dialing)
    (hopen : s.isClosed = false) : ∃ d t, s.play? (course x) = some ([x, .waits d], t) ∧
      t.place = .dialing ∧ t.isClosed = false := by
  cases x with
  | refused =>
    refine ⟨s.nextWait, { s with state := .connecting, nextWait := doubled s.nextWait }, ?_⟩
    simp [course, play?, step?, Deed.dial?, hplace, hopen]
  | connected =>
    refine ⟨firstWait, { s with
      state := .connecting
      nextWait := doubled firstWait
      connections := s.connections + 1
      outbound := none
      queue := [] }, ?_⟩
    simp [course, play?, step?, Deed.dial?, finish, hplace, hopen]
  | waits d => exact nomatch hx

/-- Any attempts, one after the other. -/
theorem play?_courses {attempts : List Dial} (hattempts : ∀ x ∈ attempts, x.isWait = false)
    (hplace : s.place = .dialing) (hopen : s.isClosed = false) :
    ∃ dials t, s.play? (attempts.flatMap course) = some (dials, t) ∧ t.isClosed = false ∧
      dials.filter (!·.isWait) = attempts ∧ dials.length = 2 * attempts.length := by
  induction attempts generalizing s with
  | nil => exact ⟨[], s, rfl, hopen, rfl, rfl⟩
  | cons x attempts ih =>
    obtain ⟨hx, hattempts⟩ := List.forall_mem_cons.mp hattempts
    obtain ⟨d, t, hplay, htplace, htopen⟩ := play?_course hx hplace hopen
    obtain ⟨dials, u, hmore, huopen, hfilter, hlength⟩ := ih hattempts htplace htopen
    refine ⟨x :: .waits d :: dials, u, play?_append hplay hmore, huopen, ?_, ?_⟩
    · have hwait : (Dial.waits d).isWait = true := rfl
      simp [hx, hwait, hfilter]
    · simp only [List.length_cons, hlength]
      omega

end Session

namespace Wire

variable {w : Wire}

theorem Dials.play {hs : List Happening} {t : Session} (h : Dials dials w)
    (hplay : w.session.play? hs = some (mid, t)) : Dials (dials ++ mid) { w with session := t } := by
  induction hs generalizing dials mid w with
  | nil =>
    cases hplay
    simpa using h
  | cons first hs ih =>
    simp only [Session.play?, Option.bind_eq_bind, Option.bind_eq_some_iff] at hplay
    obtain ⟨⟨s, effects⟩, hstep, ⟨later, t'⟩, hlater, heq⟩ := hplay
    cases heq
    have hnext := ih (h.step (.happen hstep)) hlater
    rwa [List.append_assoc] at hnext

/-- **Any attempts can come**, each with the wait after it. -/
theorem exists_dials {attempts : List Dial} (hattempts : ∀ x ∈ attempts, x.isWait = false) :
    ∃ dials w, Dials dials w ∧ w.session.isClosed = false ∧
      dials.filter (!·.isWait) = attempts ∧ dials.length = 2 * attempts.length := by
  let s : Session := { Session.initial with place := .dialing, state := .connecting }
  obtain ⟨dials, t, hplay, hopen, hfilter, hlength⟩ :=
    Session.play?_courses (s := s) hattempts rfl rfl
  have hstep : Step initial (.happened .started []) { initial with session := s } := .happen rfl
  have hstart : Dials [] { initial with session := s } := Dials.start.step hstep
  exact ⟨dials, _, hstart.play hplay, hopen, hfilter, hlength⟩

/-! ## 5. The law -/

/-- **The waits between attempts.**  In every run, attempts and waits take turns.  The wait after
`m` waits since the last connection is `2 ^ m` seconds or half a minute, whichever is shorter, so
none is shorter than a second or longer than half a minute, and between two connections the waits do
not get shorter.  As long as the session is not closed, that wait is what comes after an attempt.
Whatever attempts there are, some run has them. -/
theorem dials_lawful :
    (∀ {dials : List Dial} {w : Wire}, Dials dials w →
      (∀ i x, dials[i]? = some x → (x.isWait = true ↔ i % 2 = 1)) ∧
      (∀ before d after, dials = before ++ .waits d :: after →
        d = .ofSecs (min (2 ^ waitsSince before) 30) ∧ .ofSecs 1 ≤ d ∧ d ≤ .ofSecs 30) ∧
      (∀ before d mid d' after, dials = before ++ .waits d :: (mid ++ .waits d' :: after) →
        .connected ∉ mid → d ≤ d') ∧
      (w.session.IsIdleAgain → w.session.isClosed = false →
        (∀ h s effects, w.session.step? h = some (s, effects) → h = .settled) ∧
        ∃ n s effects, w.session.steps? (List.replicate n .settled) = some (s, effects) ∧
          s.place = .waiting (.ofSecs (min (2 ^ waitsSince dials) 30)))) ∧
    ∀ {attempts : List Dial}, (∀ x ∈ attempts, x.isWait = false) →
      ∃ dials w, Dials dials w ∧ w.session.isClosed = false ∧
        dials.filter (!·.isWait) = attempts ∧ dials.length = 2 * attempts.length := by
  refine ⟨?_, fun hattempts => exists_dials hattempts⟩
  intro dials w h
  have hpaced := h.paced
  refine ⟨hpaced.turns, ?_, ?_, ?_⟩
  · intro before d after heq
    have hd := hpaced.law before d after heq
    exact ⟨hd, hd ▸ pause_bounds _⟩
  · intro before d mid d' after heq hmid
    have hd := hpaced.law before d _ heq
    have hd' := hpaced.law (before ++ .waits d :: mid) d' after (by simpa using heq)
    rw [hd, hd', waitsSince_append (by simpa using hmid)]
    exact pause_mono (Nat.le_add_right _ _)
  · intro hidle hopen
    refine ⟨fun _ _ _ hstep => hidle.settles hstep, ?_⟩
    obtain ⟨n, s, effects, hsteps, hwaits⟩ := hidle.waits hopen
    refine ⟨n, s, effects, hsteps, ?_⟩
    rw [hwaits, (hpaced.spent hidle.stage).2]
    rfl

/-- Six attempts that fail, and then a connection. -/
def rising : List Dial :=
  [.refused, .waits (.ofSecs 1), .refused, .waits (.ofSecs 2), .refused, .waits (.ofSecs 4),
    .refused, .waits (.ofSecs 8), .refused, .waits (.ofSecs 16), .refused, .waits (.ofSecs 30),
    .connected, .waits (.ofSecs 1)]

/-- The waits rise to half a minute, and a connection makes them short again. -/
theorem dials_lawful_rising :
    (∃ w, Dials rising w ∧ Duration.ofSecs 30 = .ofSecs (min (2 ^ 5) 30) ∧
      Duration.ofSecs 1 = .ofSecs (min (2 ^ 0) 30) ∧ Duration.ofSecs 4 ≤ .ofSecs 30) ∧
    ∃ dials w, Dials dials w ∧ w.session.isClosed = false ∧
      dials.filter (!·.isWait) = [.connected, .refused] ∧ dials.length = 4 := by
  constructor
  · let hs := Happening.started ::
      (rising.filter (!·.isWait)).flatMap Session.course
    have hplay : (Session.initial.play? hs).map Prod.fst = some rising := by decide
    obtain ⟨⟨dials, s⟩, hplay, hdials⟩ := Option.map_eq_some_iff.mp hplay
    have hrun : Dials dials { initial with session := s } := Dials.start.play hplay
    obtain rfl : dials = rising := hdials
    obtain ⟨-, hlaw, hrise, -⟩ := dials_lawful.1 hrun
    refine ⟨_, hrun, ?_, ?_, ?_⟩
    · exact (hlaw (rising.take 11) (.ofSecs 30) (rising.drop 12) rfl).1
    · exact (hlaw (rising.take 13) (.ofSecs 1) [] rfl).1
    · exact hrise (rising.take 5) (.ofSecs 4) ((rising.drop 6).take 5) (.ofSecs 30)
        (rising.drop 12) rfl (by decide)
  · have hattempts : ∀ x ∈ [Dial.connected, .refused], x.isWait = false := by decide
    exact dials_lawful.2 hattempts

end Wire
end Rcon
end ServerWarden
