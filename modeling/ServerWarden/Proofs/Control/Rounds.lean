/-
# Installs go in rounds

An install is repeated in rounds.  A round installs, and then checks.  The last round is the first
one whose check finds nothing newer, or the last that the policy allows if that comes first; there
is a wait between two rounds, and none after the last.  If the policy sets no bound and every check
finds something newer, there is no last round.

`rounds` is this course of an install, written down without the program: the rounds one after
another, with the wait between each two.  The gateway answers each check as it likes, one answer
after another (`Gateway.newer`), and `Gateway.log` is what happened at it.  As its answers leave no
choice, a program has one course there, and it is enough to exhibit it: every run is on the way to
its end (`EndsAt`), or passes one round after another for ever (`GoesOn`).
-/
import Mathlib.Data.Nat.Find
import Mathlib.Order.Bounds.Basic
import ServerWarden.Proofs.Control.Conduct

namespace ServerWarden

universe u

namespace Surroundings

variable {σ : Type u} {α β : Type} {E : Surroundings σ} {p q q' : Program α} {s t t' : σ}

/-! ## 1. Surroundings that leave no choice -/

/-- A request has at most one answer, and nothing happens by itself. -/
structure Deterministic (E : Surroundings σ) : Prop where
  answer : ∀ {β : Type} {r : Request β} {s s' s'' : σ} {b b' : β},
    E.answers r s b s' → E.answers r s b' s'' → b = b' ∧ s' = s''
  rest : ∀ {s s' : σ}, ¬ E.moves s s'

/-- A program at its end stays there. -/
theorem Deterministic.eq_of_done (hE : E.Deterministic) {a : α}
    (h : E.Reaches (.done a) s q t) : q = .done a ∧ t = s := by
  cases h with
  | here => exact ⟨rfl, rfl⟩
  | moved hm => exact absurd hm hE.rest

/-- **There is one course.**  Of two moments of a program, one comes after the other. -/
theorem Deterministic.linear (hE : E.Deterministic) (h : E.Reaches p s q t)
    (h' : E.Reaches p s q' t') : E.Reaches q t q' t' ∨ E.Reaches q' t' q t := by
  induction h with
  | here => exact Or.inl h'
  | answered ha hr ih =>
    cases h' with
    | here => exact Or.inr (.answered ha hr)
    | answered ha' hr' =>
      obtain ⟨rfl, rfl⟩ := hE.answer ha ha'
      exact ih hr'
    | moved hm => exact absurd hm hE.rest
  | repeated hr ih =>
    cases h' with
    | here => exact Or.inr (.repeated hr)
    | repeated hr' => exact ih hr'
    | moved hm => exact absurd hm hE.rest
  | moved hm => exact absurd hm hE.rest

/-- **Every run comes to this end**: from each moment that it reaches, it gets there. -/
def EndsAt (E : Surroundings σ) (p : Program α) (s : σ) (a : α) (t : σ) : Prop :=
  ∀ ⦃q : Program α⦄ ⦃u : σ⦄, E.Reaches p s q u → E.Reaches q u (.done a) t

theorem Deterministic.endsAt (hE : E.Deterministic) {a : α} (h : E.Reaches p s (.done a) t) :
    E.EndsAt p s a t := by
  intro q u hr
  rcases hE.linear h hr with hd | hd
  · obtain ⟨rfl, rfl⟩ := hE.eq_of_done hd
    exact .here _ _
  · exact hd

/-- A run of a program is the beginning of a run of what the program is a part of. -/
theorem Reaches.bind (h : E.Reaches p s q t) (f : α → Program β) :
    E.Reaches (p.bind f) s (q.bind f) t := by
  induction h with
  | here => exact .here _ _
  | answered ha _ ih => exact .answered ha ih
  | repeated _ ih => exact .repeated (Program.unfold_bind f ▸ ih)
  | moved hm _ ih => exact .moved hm ih

end Surroundings

open Surroundings

namespace Maintenance

/-! ## 2. The gateway -/

/-- What happens at a gateway. -/
inductive Deed where
  | installServer
  /-- The framework is installed; `quiet` if it is expected to be missing. -/
  | installFramework (quiet : Bool)
  | check (kind : ArtifactKind) (newer : Bool)
  | wait (d : Duration)
  deriving DecidableEq, Repr

/-- A gateway, by what its checks will answer and what happened at it. -/
structure Gateway where
  /-- The answers of the checks to come, counted from one. -/
  newer : ArtifactKind → Nat → Bool
  log : List Deed

namespace Gateway

/-- A gateway after one more deed.  A check uses up an answer. -/
def after (g : Gateway) (d : Deed) : Gateway where
  newer kind n :=
    match d with
    | .check checked _ => if kind = checked then g.newer kind (n + 1) else g.newer kind n
    | _ => g.newer kind n
  log := g.log ++ [d]

def afterAll (g : Gateway) (deeds : List Deed) : Gateway := deeds.foldl after g

end Gateway

/-- **Surroundings of an install**: the gateway answers the next check with its next answer, and
whatever is asked of it happens. -/
def gateway : Surroundings Gateway where
  answers
    | _, .updateServer, g, _, g' => g' = g.after .installServer
    | _, .updateFramework quiet, g, _, g' => g' = g.after (.installFramework quiet)
    | _, .checkServer, g, b, g' => b = g.newer .server 1 ∧ g' = g.after (.check .server b)
    | _, .checkFramework, g, b, g' => b = g.newer .framework 1 ∧ g' = g.after (.check .framework b)
    | _, .sleep d, g, _, g' => g' = g.after (.wait d)
    | _, .say .., g, _, g' => g' = g
    | _, _, _, _, _ => False
  moves _ _ := False

theorem gateway_deterministic : gateway.Deterministic where
  answer := by
    intro β r g g' g'' b b' h h'
    cases r
    case updateServer => exact ⟨rfl, h.trans h'.symm⟩
    case updateFramework => exact ⟨rfl, h.trans h'.symm⟩
    case sleep => exact ⟨rfl, h.trans h'.symm⟩
    case say => exact ⟨rfl, h.trans h'.symm⟩
    case checkServer =>
      obtain ⟨rfl, rfl⟩ := h
      exact ⟨h'.1.symm, by rw [h'.2, h'.1]⟩
    case checkFramework =>
      obtain ⟨rfl, rfl⟩ := h
      exact ⟨h'.1.symm, by rw [h'.2, h'.1]⟩
    all_goals exact h.elim
  rest := id

/-! ## 3. The course of an install -/

/-- An install of an artifact. -/
def installing (quiet : Bool) : ArtifactKind → Deed
  | .server => .installServer
  | .framework => .installFramework quiet

/-- A round whose check has an answer. -/
def round (kind : ArtifactKind) (quiet newer : Bool) : List Deed :=
  [installing quiet kind, .check kind newer]

/-- **The first `k` rounds** of an install, with a wait between each two. -/
def rounds (kind : ArtifactKind) (quiet : Bool) (retry : RetryPolicy) (newer : Nat → Bool)
    (k : Nat) : List Deed :=
  [Deed.wait retry.delay].intercalate
    ((List.range k).map fun n => round kind quiet (newer (n + 1)))

/-- The first `k` rounds of an install that goes on, each with the wait after it. -/
def roundsOn (kind : ArtifactKind) (quiet : Bool) (retry : RetryPolicy) (newer : Nat → Bool)
    (k : Nat) : List Deed :=
  (List.range k).flatMap fun n => round kind quiet (newer (n + 1)) ++ [.wait retry.delay]

/-- **The last round**: the least one whose check finds nothing newer, or the last that the policy
allows if that comes first. -/
def LastRound (retry : RetryPolicy) (newer : Nat → Bool) (k : Nat) : Prop :=
  IsLeast {k | 0 < k ∧ (newer k = false ∨ k = retry.maxAttempts.toNat)} k

/-- The policy sets no bound, and every check finds something newer. -/
def Endless (retry : RetryPolicy) (newer : Nat → Bool) : Prop :=
  retry.maxAttempts = 0 ∧ ∀ k, 0 < k → newer k = true

/-! ## 4. Deeds and the answers left -/

section Deeds

variable {kind kind' : ArtifactKind} {quiet : Bool} {retry : RetryPolicy} {newer : Nat → Bool}

/-- A deed uses up an answer for the artifact. -/
def Deed.checks (kind : ArtifactKind) : Deed → Bool
  | .check checked _ => checked = kind
  | _ => false

theorem Gateway.afterAll_append (g : Gateway) (deeds deeds' : List Deed) :
    g.afterAll (deeds ++ deeds') = (g.afterAll deeds).afterAll deeds' := List.foldl_append

theorem Gateway.log_afterAll (g : Gateway) (deeds : List Deed) :
    (g.afterAll deeds).log = g.log ++ deeds := by
  induction deeds generalizing g with
  | nil => exact (List.append_nil _).symm
  | cons d deeds ih => exact (ih _).trans (List.append_assoc ..)

theorem Gateway.newer_after (g : Gateway) (d : Deed) (n : Nat) :
    (g.after d).newer kind n = g.newer kind (n + if d.checks kind then 1 else 0) := by
  cases d with
  | check checked b =>
    by_cases h : kind = checked
    · simp [after, Deed.checks, h]
    · simp [after, Deed.checks, h, Ne.symm h]
  | _ => rfl

theorem Gateway.newer_afterAll (g : Gateway) (deeds : List Deed) (n : Nat) :
    (g.afterAll deeds).newer kind n = g.newer kind (n + deeds.countP (Deed.checks kind)) := by
  induction deeds generalizing g n with
  | nil => rfl
  | cons d deeds ih =>
    refine (ih (g.after d) n).trans ?_
    rw [newer_after, List.countP_cons, Nat.add_assoc]

theorem roundsOn_succ (n : Nat) : roundsOn kind quiet retry newer (n + 1) =
    roundsOn kind quiet retry newer n ++
      (round kind quiet (newer (n + 1)) ++ [.wait retry.delay]) := by
  simp [roundsOn, List.range_succ]

theorem countP_round (newer : Bool) :
    (round kind quiet newer).countP (Deed.checks kind') = if kind = kind' then 1 else 0 := by
  cases kind <;> cases kind' <;> rfl

theorem countP_roundsOn (n : Nat) : (roundsOn kind quiet retry newer n).countP (Deed.checks kind') =
    if kind = kind' then n else 0 := by
  induction n with
  | zero => simp [roundsOn]
  | succ n ih =>
    rw [roundsOn_succ, List.countP_append, List.countP_append, ih, countP_round]
    split <;> rfl

theorem intercalate_concat {α : Type} (separator last : List α) (parts : List (List α)) :
    separator.intercalate (parts ++ [last]) = parts.flatMap (· ++ separator) ++ last := by
  induction parts with
  | nil => simp
  | cons part parts ih =>
    rw [List.cons_append, List.intercalate_cons_of_ne_nil (by simp), ih]
    simp

/-- The last round has no wait after it. -/
theorem rounds_succ (n : Nat) : rounds kind quiet retry newer (n + 1) =
    roundsOn kind quiet retry newer n ++ round kind quiet (newer (n + 1)) := by
  simp [rounds, roundsOn, List.range_succ, intercalate_concat, List.flatMap_map]

example : rounds .framework true ⟨.ofSecs 10, 3⟩ (· < 2) 2 =
    [.installFramework true, .check .framework true, .wait (.ofSecs 10),
      .installFramework true, .check .framework false] := rfl

theorem countP_rounds (n : Nat) : (rounds kind quiet retry newer n).countP (Deed.checks kind') =
    if kind = kind' then n else 0 := by
  cases n with
  | zero => simp [rounds]
  | succ n =>
    rw [rounds_succ, List.countP_append, countP_roundsOn, countP_round]
    split <;> rfl

theorem le_length_roundsOn (n : Nat) : n ≤ (roundsOn kind quiet retry newer n).length := by
  induction n with
  | zero => exact Nat.zero_le _
  | succ n ih =>
    rw [roundsOn_succ, List.length_append]
    simp [round]
    omega

end Deeds

/-! ## 5. One turn of an install -/

section Turns

variable {α : Type} {kind : ArtifactKind} {quiet : Bool} {retry : RetryPolicy} {before : UInt32}
  {next : Bool → Program α} {g : Gateway}

theorem answers_install :
    gateway.answers (kind.artifact quiet).install g () (g.after (installing quiet kind)) := by
  cases kind <;> exact rfl

theorem answers_check : gateway.answers (kind.artifact quiet).check g (g.newer kind 1)
    (g.after (.check kind (g.newer kind 1))) := by
  cases kind <;> exact ⟨rfl, rfl⟩

theorem answers_say {level : Log.Level} {speaker : Log.Speaker} {text : String} :
    gateway.answers (.say level speaker text) g () g := rfl

theorem answers_wait {d : Duration} :
    gateway.answers (.sleep d) g () (g.after (.wait d)) := rfl

/-- A turn whose check finds something newer, with an attempt left: another turn follows. -/
theorem turn_again (hnewer : g.newer kind 1 = true)
    (hleft : ¬ (retry.maxAttempts ≠ 0 ∧ retry.maxAttempts ≤ before + 1)) :
    gateway.Reaches (.iterate (attempt (kind.artifact quiet) retry) before next) g
      (.iterate (attempt (kind.artifact quiet) retry) (before + 1) next)
      (g.afterAll (round kind quiet true ++ [.wait retry.delay])) := by
  refine .repeated (.answered answers_install (.answered answers_check ?_))
  have hanswer : (g.after (installing quiet kind)).newer kind 1 = true := by
    cases kind <;> exact hnewer
  simp only [hanswer, if_neg hleft]
  exact .answered answers_say (.answered answers_wait (.here _ _))

/-- A turn whose check finds nothing newer, or that is the last: the install is at its end. -/
theorem turn_last (h : g.newer kind 1 = false ∨
      (retry.maxAttempts ≠ 0 ∧ retry.maxAttempts ≤ before + 1)) :
    gateway.Reaches (.iterate (attempt (kind.artifact quiet) retry) before next) g
      (next (!g.newer kind 1)) (g.afterAll (round kind quiet (g.newer kind 1))) := by
  refine .repeated (.answered answers_install (.answered answers_check ?_))
  have hanswer : (g.after (installing quiet kind)).newer kind 1 = g.newer kind 1 := by
    cases kind <;> rfl
  rw [hanswer]
  cases hnewer : g.newer kind 1
  case false => exact .answered answers_say (.here _ _)
  case true =>
    have hlast := h.resolve_left (by simp [hnewer])
    simp only [Bool.not_true, if_pos hlast]
    exact .answered answers_say (.here _ _)

end Turns

/-! ## 6. A whole install -/

/-- The first `n` rounds are not the last. -/
def Onward (retry : RetryPolicy) (newer : Nat → Bool) (n : Nat) : Prop :=
  ∀ k, 0 < k → k ≤ n → newer k = true ∧ k ≠ retry.maxAttempts.toNat

/-- After rounds that were not the last, the attempts are used up in the next one exactly if it is
the last that the policy allows.  The number of attempts has not wrapped around by then. -/
theorem limit_iff {retry : RetryPolicy} {newer : Nat → Bool} {n : Nat}
    (h : Onward retry newer n) :
    (retry.maxAttempts ≠ 0 ∧ retry.maxAttempts ≤ UInt32.ofNat n + 1) ↔
      n + 1 = retry.maxAttempts.toNat := by
  by_cases hzero : retry.maxAttempts = 0
  · simp [hzero]
  have hpos : 0 < retry.maxAttempts.toNat :=
    Nat.pos_of_ne_zero fun h0 => hzero (UInt32.toNat_inj.mp h0)
  have hn : n < retry.maxAttempts.toNat := by
    by_contra hle
    exact (h _ hpos (Nat.le_of_not_lt hle)).2 rfl
  have hmax := retry.maxAttempts.toNat_lt
  have hsucc : (UInt32.ofNat n + 1).toNat = n + 1 := by
    rw [UInt32.toNat_add, UInt32.toNat_ofNat]
    simp
    omega
  rw [UInt32.le_iff_toNat_le, hsucc]
  exact ⟨fun hle => by omega, fun heq => ⟨hzero, by omega⟩⟩

section Installs

variable {α : Type} {kind : ArtifactKind} {quiet : Bool} {retry : RetryPolicy}
  {next : Bool → Program α} {g : Gateway} {n : Nat}

/-- **Round after round.**  An install comes through the rounds that are not the last. -/
theorem reaches_roundsOn (h : Onward retry (g.newer kind) n) :
    gateway.Reaches (.iterate (attempt (kind.artifact quiet) retry) 0 next) g
      (.iterate (attempt (kind.artifact quiet) retry) (UInt32.ofNat n) next)
      (g.afterAll (roundsOn kind quiet retry (g.newer kind) n)) := by
  induction n with
  | zero => exact .here _ _
  | succ n ih =>
    have hbefore : Onward retry (g.newer kind) n := fun k hk hle => h k hk (Nat.le_succ_of_le hle)
    obtain ⟨hnewer, hmax⟩ := h (n + 1) n.succ_pos (Nat.le_refl _)
    have hanswer : (g.afterAll (roundsOn kind quiet retry (g.newer kind) n)).newer kind 1 =
        true := by
      rw [Gateway.newer_afterAll, countP_roundsOn, if_pos rfl, Nat.add_comm, hnewer]
    have hturn : gateway.Reaches
        (.iterate (attempt (kind.artifact quiet) retry) (UInt32.ofNat n) next) _ _ _ :=
      turn_again hanswer (mt (limit_iff hbefore).mp hmax)
    rw [← Gateway.afterAll_append, ← UInt32.ofNat_one, ← UInt32.ofNat_add] at hturn
    rw [roundsOn_succ, hnewer]
    exact (ih hbefore).trans hturn

theorem LastRound.onward {newer : Nat → Bool} (h : LastRound retry newer (n + 1)) :
    Onward retry newer n := by
  intro k hk hle
  by_contra hlast
  have hmem : newer k = false ∨ k = retry.maxAttempts.toNat := by
    by_cases hmax : k = retry.maxAttempts.toNat
    · exact Or.inr hmax
    · exact Or.inl (Bool.eq_false_iff.mpr fun hnewer => hlast ⟨hnewer, hmax⟩)
  exact absurd (h.2 ⟨hk, hmem⟩) (Nat.not_le_of_lt (Nat.lt_succ_of_le hle))

theorem Endless.onward {newer : Nat → Bool} (h : Endless retry newer) (n : Nat) :
    Onward retry newer n := by
  intro k hk _
  refine ⟨h.2 k hk, ?_⟩
  rw [h.1]
  exact Nat.ne_of_gt hk

/-- There is a last round, unless there are rounds for ever. -/
theorem exists_lastRound_iff {newer : Nat → Bool} :
    (∃ k, LastRound retry newer k) ↔ ¬ Endless retry newer := by
  constructor
  · rintro ⟨k, ⟨hk, hlast⟩, -⟩ hendless
    obtain ⟨hnewer, hmax⟩ := hendless.onward k k hk (Nat.le_refl k)
    rcases hlast with hfalse | heq
    · exact Bool.false_ne_true (hfalse.symm.trans hnewer)
    · exact hmax heq
  · intro h
    have hsome : ∃ k, 0 < k ∧ (newer k = false ∨ k = retry.maxAttempts.toNat) := by
      by_contra hnone
      apply h
      constructor
      · by_contra hmax
        have hpos : 0 < retry.maxAttempts.toNat :=
          Nat.pos_of_ne_zero fun h0 => hmax (UInt32.toNat_inj.mp h0)
        exact hnone ⟨_, hpos, Or.inr rfl⟩
      · intro k hk
        by_contra hnewer
        exact hnone ⟨k, hk, Or.inl (Bool.eq_false_iff.mpr hnewer)⟩
    exact ⟨Nat.find hsome, Nat.find_spec hsome, fun k hk => Nat.find_min' hsome hk⟩

/-- The last round ends the install. -/
theorem reaches_rounds (h : LastRound retry (g.newer kind) n) :
    gateway.Reaches (.iterate (attempt (kind.artifact quiet) retry) 0 next) g
      (next (!g.newer kind n)) (g.afterAll (rounds kind quiet retry (g.newer kind) n)) := by
  cases n with
  | zero => exact absurd h.1.1 (Nat.lt_irrefl 0)
  | succ n =>
    have hanswer : (g.afterAll (roundsOn kind quiet retry (g.newer kind) n)).newer kind 1 =
        g.newer kind (n + 1) := by
      rw [Gateway.newer_afterAll, countP_roundsOn, if_pos rfl, Nat.add_comm]
    have hlast := h.1.2.imp_right (limit_iff h.onward).mpr
    rw [← hanswer] at hlast
    have hturn : gateway.Reaches
        (.iterate (attempt (kind.artifact quiet) retry) (UInt32.ofNat n) next) _ _ _ :=
      turn_last hlast
    rw [hanswer, ← Gateway.afterAll_append, ← rounds_succ] at hturn
    exact (reaches_roundsOn h.onward).trans hturn

/-- **An install that has a last round ends with it**, and tells whether its check was content. -/
theorem install_reaches (h : LastRound retry (g.newer kind) n) :
    gateway.Reaches (install (kind.artifact quiet) retry) g (.done (!g.newer kind n))
      (g.afterAll (rounds kind quiet retry (g.newer kind) n)) :=
  .answered answers_say (reaches_rounds h)

theorem install_reaches_roundsOn (h : Endless retry (g.newer kind)) (n : Nat) :
    ∃ q, gateway.Reaches (install (kind.artifact quiet) retry) g q
      (g.afterAll (roundsOn kind quiet retry (g.newer kind) n)) :=
  ⟨_, .answered answers_say (reaches_roundsOn (h.onward n))⟩

end Installs

/-! ## 7. Rounds for ever -/

/-- **A program goes on for ever**, along a course: it is never at its end, and from each moment it
comes further along the course than any given place. -/
def GoesOn {α : Type} (p : Program α) (g : Gateway) (course : Nat → List Deed) : Prop :=
  ∀ ⦃q : Program α⦄ ⦃t : Gateway⦄, gateway.Reaches p g q t →
    q.result? = none ∧ ∀ m, ∃ n q', m ≤ n ∧ gateway.Reaches q t q' (g.afterAll (course n))

/-- What is asked for leaves the log as it is, or one deed longer. -/
theorem log_of_answers {β : Type} {r : Request β} {g g' : Gateway} {b : β}
    (h : gateway.answers r g b g') : g' = g ∨ ∃ d, g' = g.after d := by
  cases r
  case say => exact Or.inl h
  case updateServer => exact Or.inr ⟨_, h⟩
  case updateFramework => exact Or.inr ⟨_, h⟩
  case sleep => exact Or.inr ⟨_, h⟩
  case checkServer => exact Or.inr ⟨_, h.2⟩
  case checkFramework => exact Or.inr ⟨_, h.2⟩
  all_goals exact h.elim

/-- What is done is not undone. -/
theorem length_log_le {α : Type} {p q : Program α} {g t : Gateway}
    (h : gateway.Reaches p g q t) : g.log.length ≤ t.log.length := by
  induction h with
  | here => exact Nat.le_refl _
  | @answered _ _ _ g _ _ _ _ ha _ ih =>
    obtain rfl | ⟨d, rfl⟩ := log_of_answers ha
    · exact ih
    · have hlen : (g.after d).log.length = g.log.length + 1 := List.length_append
      omega
  | repeated _ ih => exact ih
  | moved hm _ _ => exact hm.elim

/-- A program that comes along every part of a course goes on for ever: every run is on it. -/
theorem goesOn_of_reaches {α : Type} {p : Program α} {g : Gateway} {course : Nat → List Deed}
    (hlong : ∀ n, n ≤ (course n).length)
    (h : ∀ n, ∃ q, gateway.Reaches p g q (g.afterAll (course n))) : GoesOn p g course := by
  intro q t hr
  have hfurther (m : Nat) : ∃ n q', m ≤ n ∧ gateway.Reaches q t q' (g.afterAll (course n)) := by
    let n := m + t.log.length + 1
    obtain ⟨q', hq'⟩ := h n
    refine ⟨n, q', by omega, ?_⟩
    apply (gateway_deterministic.linear hr hq').resolve_right
    intro hback
    -- the log is longer by then than where the run stands
    have hle := length_log_le hback
    have := hlong n
    rw [Gateway.log_afterAll, List.length_append] at hle
    omega
  refine ⟨?_, hfurther⟩
  cases hq : q.result? with
  | none => rfl
  | some a =>
    obtain rfl := Program.eq_done_of_result? hq
    obtain ⟨n, q', hn, hr'⟩ := hfurther (t.log.length + 1)
    have heq := congrArg (fun g => g.log.length) (gateway_deterministic.eq_of_done hr').2
    have := hlong n
    simp only [Gateway.log_afterAll, List.length_append] at heq
    omega

/-! ## 8. A whole plan -/

/-- What the installs of an artifact come to, if they end: rounds up to the last, or nothing if the
artifact is not in the plan. -/
def Ends (wanted : Bool) (kind : ArtifactKind) (quiet : Bool) (retry : RetryPolicy)
    (newer : Nat → Bool) (deeds : List Deed) : Prop :=
  if wanted then ∃ k, LastRound retry newer k ∧ deeds = rounds kind quiet retry newer k
  else deeds = []

section Plans

variable {α : Type} {kind : ArtifactKind} {wanted quiet : Bool} {retry : RetryPolicy} {g : Gateway}
  {deeds : List Deed} {next : Unit → Program α}

theorem installIf_reaches (h : Ends wanted kind quiet retry (g.newer kind) deeds) :
    gateway.Reaches (Program.bind (installIf wanted (kind.artifact quiet) retry) next) g (next ())
      (g.afterAll deeds) := by
  cases wanted with
  | false =>
    obtain rfl : deeds = [] := h
    exact .here _ _
  | true =>
    obtain ⟨k, hk, rfl⟩ := h
    exact ((install_reaches hk).bind _).bind next

theorem installIf_reaches_roundsOn (h : Endless retry (g.newer kind)) (n : Nat) :
    ∃ q, gateway.Reaches (Program.bind (installIf true (kind.artifact quiet) retry) next) g q
      (g.afterAll (roundsOn kind quiet retry (g.newer kind) n)) := by
  obtain ⟨q, hq⟩ := install_reaches_roundsOn h n
  exact ⟨_, (hq.bind _).bind next⟩

/-- What is done for the server uses up no answer for the framework. -/
theorem Ends.newer_framework (h : Ends wanted .server quiet retry (g.newer .server) deeds) :
    (g.afterAll deeds).newer .framework = g.newer .framework := by
  funext n
  rw [Gateway.newer_afterAll]
  cases wanted with
  | false =>
    obtain rfl : deeds = [] := h
    rfl
  | true =>
    obtain ⟨k, -, rfl⟩ := h
    rw [countP_rounds, if_neg (by decide), Nat.add_zero]

theorem installAll_eq (plan : UpdatePlan) (serverRetry frameworkRetry : RetryPolicy) :
    installAll plan serverRetry frameworkRetry =
      Program.bind (installIf plan.server (ArtifactKind.server.artifact false) serverRetry) fun _ =>
        Program.bind (installIf plan.framework (ArtifactKind.framework.artifact plan.server)
          frameworkRetry) .done := by
  rw [Program.bind_done]
  rfl

end Plans

/-- **Installs go in rounds.**  An install of an artifact ends with the last round, and answers
whether its check was content; if there is no last round it goes on for ever, and only then.  A plan
is the installs of the server and then those of the framework, each as if alone.  The framework is
expected to be missing if the server was installed, and is not begun before the server has ended. -/
theorem installs_in_rounds :
    (∀ (kind : ArtifactKind) (quiet : Bool) (retry : RetryPolicy) (g : Gateway),
      (∀ k, LastRound retry (g.newer kind) k →
        gateway.EndsAt (install (kind.artifact quiet) retry) g (!g.newer kind k)
          (g.afterAll (rounds kind quiet retry (g.newer kind) k))) ∧
      (Endless retry (g.newer kind) →
        GoesOn (install (kind.artifact quiet) retry) g
          (roundsOn kind quiet retry (g.newer kind))) ∧
      ((∃ confirmed t,
          gateway.Reaches (install (kind.artifact quiet) retry) g (.done confirmed) t) ↔
        ¬ Endless retry (g.newer kind))) ∧
    ∀ (plan : UpdatePlan) (serverRetry frameworkRetry : RetryPolicy) (g : Gateway),
      (plan.server = true → Endless serverRetry (g.newer .server) →
        GoesOn (installAll plan serverRetry frameworkRetry) g
          (roundsOn .server false serverRetry (g.newer .server))) ∧
      ∀ first, Ends plan.server .server false serverRetry (g.newer .server) first →
        (∀ second,
          Ends plan.framework .framework plan.server frameworkRetry (g.newer .framework) second →
            gateway.EndsAt (installAll plan serverRetry frameworkRetry) g ()
              (g.afterAll (first ++ second))) ∧
        (plan.framework = true → Endless frameworkRetry (g.newer .framework) →
          GoesOn (installAll plan serverRetry frameworkRetry) g fun n =>
            first ++
              roundsOn .framework plan.server frameworkRetry (g.newer .framework) n) := by
  constructor
  · intro kind quiet retry g
    have hgoesOn (hendless : Endless retry (g.newer kind)) :
        GoesOn (install (kind.artifact quiet) retry) g (roundsOn kind quiet retry (g.newer kind)) :=
      goesOn_of_reaches le_length_roundsOn (install_reaches_roundsOn hendless)
    refine ⟨fun k hk => gateway_deterministic.endsAt (install_reaches hk), hgoesOn, ?_, ?_⟩
    · rintro ⟨confirmed, t, hr⟩ hendless
      exact nomatch (hgoesOn hendless hr).1
    · intro hendless
      obtain ⟨k, hk⟩ := exists_lastRound_iff.mpr hendless
      exact ⟨_, _, install_reaches hk⟩
  · intro plan serverRetry frameworkRetry g
    rw [installAll_eq]
    constructor
    · intro hserver hendless
      apply goesOn_of_reaches le_length_roundsOn
      intro n
      rw [hserver]
      exact installIf_reaches_roundsOn hendless n
    · intro first hfirst
      let afterwards (_ : Unit) : Program Unit :=
        (installIf plan.framework (ArtifactKind.framework.artifact plan.server)
          frameworkRetry).bind .done
      have hserver : gateway.Reaches (Program.bind _ afterwards) g (afterwards ()) _ :=
        installIf_reaches hfirst
      constructor
      · intro second hsecond
        rw [← hfirst.newer_framework] at hsecond
        rw [Gateway.afterAll_append]
        exact gateway_deterministic.endsAt (hserver.trans (installIf_reaches hsecond))
      · intro hframework hendless
        apply goesOn_of_reaches
        · intro n
          rw [List.length_append]
          exact Nat.le_add_left_of_le (le_length_roundsOn n)
        · intro n
          rw [← hfirst.newer_framework] at hendless
          obtain ⟨q, hq⟩ : ∃ q, gateway.Reaches (afterwards ()) (g.afterAll first) q _ :=
            hframework ▸ installIf_reaches_roundsOn hendless n
          rw [hfirst.newer_framework, ← Gateway.afterAll_append] at hq
          exact ⟨q, hserver.trans hq⟩

end Maintenance
end ServerWarden
