/-
# Runs of a control program, with every answer open

A control program asks its surroundings and goes on with what they answer.  `Surroundings` says
which answers are possible in which state, and how that state may change by itself, between any two
requests.  `Surroundings.Reaches` is then every run: each answer that is possible happens in one.

A property of all runs is proved along the program text, and not along a run:

* `Duty` is what has to hold: one thing in every state that a run comes through, another one
  whenever something is asked for.
* `Upholds` says that a program keeps a duty in every run from a state, and that its result, if it
  has one, is as promised.  There is one rule for each way in which a program is built
  (`Upholds.done`, `Upholds.ask`, `Upholds.bind`, `Upholds.iterate`), and they all rest on one
  induction over runs, `Upholds.of_invariant`.
* `Condition` is a set of states that the surroundings never leave by themselves.  What is known
  between two requests is always known as one.
* `Program.Asks` bounds what a program may ask for, whatever it is answered; `Upholds.of_asks` keeps
  a condition through a program of which no more is known than that.
* `Upholds.comap` takes a duty over from surroundings that show less of the state, and
  `Upholds.keeps` is an induction over a run whose requests are known to be in keeping with a duty.

`Surroundings.recorded` keeps the history of all answers beside the state, for properties that speak
of the past.  `Surroundings.Player` answers in one fixed way, and so exhibits a run.
-/
import ServerWarden.Control.Program

namespace ServerWarden

universe u v

/-- What comes after a program comes after each of its repetitions. -/
theorem Program.unfold_bind {α β γ τ : Type} {body : τ → Program (τ ⊕ β)} {state : τ}
    {next : β → Program α} (f : α → Program γ) :
    (Program.unfold body state next).bind f = .unfold body state fun b => (next b).bind f := by
  simp only [Program.unfold, Program.bind_assoc]
  congr 1
  funext x
  cases x <;> rfl

/-! ## 1. What a program may ask for -/

namespace Program

variable {α β τ : Type} {A : ⦃β : Type⦄ → Request β → Prop}

/-- Whatever it is answered, a program asks for nothing but what `A` admits. -/
def Asks (A : ⦃β : Type⦄ → Request β → Prop) {α : Type} : Program α → Prop
  | .done _ => True
  | .ask r next => A r ∧ ∀ b, (next b).Asks A
  | .iterate body _ next => (∀ state, (body state).Asks A) ∧ ∀ b, (next b).Asks A

@[simp] theorem asks_pure (a : α) : (pure a : Program α).Asks A := trivial

@[simp] theorem asks_request {r : Request β} : (request r).Asks A ↔ A r := by
  simp [request, Asks]

@[simp] theorem asks_request_bind {r : Request β} {f : β → Program α} :
    (request r >>= f).Asks A ↔ A r ∧ ∀ b, (f b).Asks A := Iff.rfl

theorem asks_bind {p : Program β} {f : β → Program α} (hp : p.Asks A)
    (hf : ∀ b, (f b).Asks A) : (p >>= f).Asks A := by
  show (p.bind f).Asks A
  induction p with
  | done b => exact hf b
  | ask r next ih => exact ⟨hp.1, fun b => ih b (hp.2 b) hf⟩
  | iterate body state next _ ih => exact ⟨hp.1, fun b => ih b (hp.2 b) hf⟩

theorem Asks.of_bind {p : Program β} {f : β → Program α} (h : (p >>= f).Asks A) : p.Asks A := by
  induction p with
  | done _ => trivial
  | ask r next ih => exact ⟨h.1, fun b => ih b (h.2 b)⟩
  | iterate body state next _ ih => exact ⟨h.1, fun b => ih b (h.2 b)⟩

theorem asks_map {p : Program β} {f : β → α} (hp : p.Asks A) : (f <$> p).Asks A := by
  rw [map_eq_pure_bind]
  exact asks_bind hp fun b => asks_pure (f b)

theorem Asks.mono {B : ⦃β : Type⦄ → Request β → Prop} {p : Program α} (hp : p.Asks A)
    (hAB : ∀ {β : Type} (r : Request β), A r → B r) : p.Asks B := by
  induction p with
  | done a => trivial
  | ask r next ih => exact ⟨hAB r hp.1, fun b => ih b (hp.2 b)⟩
  | iterate body state next ihb ihn =>
    exact ⟨fun i => ihb i (hp.1 i), fun b => ihn b (hp.2 b)⟩

theorem asks_loop {body : τ → Program (τ ⊕ β)} {state : τ} (h : ∀ i, (body i).Asks A) :
    (loop body state).Asks A := ⟨h, fun _ => trivial⟩

theorem asks_unfold {body : τ → Program (τ ⊕ β)} {state : τ} {next : β → Program α}
    (h : (Program.iterate body state next).Asks A) : (unfold body state next).Asks A := by
  refine asks_bind (h.1 state) ?_
  rintro (i | b)
  · exact h
  · exact h.2 b

end Program

/-! ## 2. Surroundings and runs -/

/-- What a program may meet in a state of type `σ`. -/
structure Surroundings (σ : Type u) where
  /-- `answers r s b s'`: in the state `s` a request `r` may be answered by `b`, which leaves the
  state `s'`. -/
  answers : ⦃β : Type⦄ → Request β → σ → β → σ → Prop
  /-- How the state may change by itself. -/
  moves : σ → σ → Prop

/-- The result of a program that is at its end. -/
def Program.result? {α : Type} : Program α → Option α
  | .done a => some a
  | _ => none

theorem Program.eq_done_of_result? {α : Type} {p : Program α} {a : α}
    (h : p.result? = some a) : p = .done a := by
  cases p with
  | done b => exact congrArg Program.done (Option.some.inj h)
  | ask r next => exact nomatch h
  | iterate body state next => exact nomatch h

namespace Surroundings

variable {σ : Type u} {α β τ : Type}

/-- **Every run.**  `E.Reaches p s q t`: a program that stands at `p` while the state is `s` may
come to stand at `q` while the state is `t`. -/
inductive Reaches (E : Surroundings σ) {α : Type} : Program α → σ → Program α → σ → Prop where
  | here (p : Program α) (s : σ) : Reaches E p s p s
  | answered {β : Type} {r : Request β} {next : β → Program α} {s s' t : σ} {b : β}
      {q : Program α} :
      E.answers r s b s' → Reaches E (next b) s' q t → Reaches E (.ask r next) s q t
  | repeated {τ β : Type} {body : τ → Program (τ ⊕ β)} {state : τ} {next : β → Program α}
      {s t : σ} {q : Program α} :
      Reaches E (.unfold body state next) s q t → Reaches E (.iterate body state next) s q t
  | moved {p q : Program α} {s s' t : σ} :
      E.moves s s' → Reaches E p s' q t → Reaches E p s q t

theorem Reaches.trans {E : Surroundings σ} {p q r : Program α} {s t u : σ}
    (h : E.Reaches p s q t) (h' : E.Reaches q t r u) : E.Reaches p s r u := by
  induction h with
  | here => exact h'
  | answered ha _ ih => exact .answered ha (ih h')
  | repeated _ ih => exact .repeated (ih h')
  | moved hm _ ih => exact .moved hm (ih h')

/-- The states that the surroundings never leave by themselves. -/
def Stable (E : Surroundings σ) (P : σ → Prop) : Prop := ∀ ⦃s t⦄, E.moves s t → P s → P t

/-! ## 3. Duties -/

/-- What a program has to keep. -/
structure Duty (σ : Type u) where
  /-- What holds in every state that a run comes through. -/
  always : σ → Prop
  /-- What holds in a state in which something is asked for. -/
  asking : ⦃β : Type⦄ → Request β → σ → Prop

/-- Where a program stands, a duty and a promise about the result are met. -/
def Duty.Met (D : Duty σ) (post : α → σ → Prop) (t : σ) : Program α → Prop
  | .done a => D.always t ∧ post a t
  | .ask r _ => D.always t ∧ D.asking r t
  | .iterate .. => D.always t

theorem Duty.Met.always {D : Duty σ} {post : α → σ → Prop} {t : σ} {q : Program α}
    (h : D.Met post t q) : D.always t := by
  cases q with
  | done a => exact h.1
  | ask r next => exact h.1
  | iterate body state next => exact h

/-- **A program keeps a duty**, and its result is as promised, in every run from a state. -/
def Upholds (E : Surroundings σ) (D : Duty σ) (p : Program α) (s : σ) (post : α → σ → Prop) :
    Prop :=
  ∀ ⦃q : Program α⦄ ⦃t : σ⦄, E.Reaches p s q t → D.Met post t q

namespace Upholds

variable {E : Surroundings σ} {D : Duty σ} {p : Program α} {s t : σ} {post : α → σ → Prop}

theorem here (h : E.Upholds D p s post) : D.Met post s p := h (.here p s)

theorem reaches {q : Program α} (h : E.Upholds D p s post) (hr : E.Reaches p s q t) :
    E.Upholds D q t post := fun _ _ hr' => h (hr.trans hr')

theorem answered {r : Request β} {next : β → Program α} {b : β}
    (h : E.Upholds D (.ask r next) s post) (ha : E.answers r s b t) :
    E.Upholds D (next b) t post := h.reaches (.answered ha (.here _ _))

theorem repeated {body : τ → Program (τ ⊕ β)} {state : τ} {next : β → Program α}
    (h : E.Upholds D (.iterate body state next) s post) :
    E.Upholds D (.unfold body state next) s post := h.reaches (.repeated (.here _ _))

theorem moved (h : E.Upholds D p s post) (hm : E.moves s t) : E.Upholds D p t post :=
  h.reaches (.moved hm (.here _ _))

/-- **Induction over runs.**  A set of moments that no step leaves, and in which a duty is met,
keeps the duty. -/
theorem of_invariant {R : Program α → σ → Prop}
    (met : ∀ q t, R q t → D.Met post t q)
    (answered : ∀ {β : Type} (r : Request β) (next : β → Program α) (s : σ) (b : β) (s' : σ),
      R (.ask r next) s → E.answers r s b s' → R (next b) s')
    (repeated : ∀ {τ β : Type} (body : τ → Program (τ ⊕ β)) (state : τ) (next : β → Program α)
      (s : σ), R (.iterate body state next) s → R (.unfold body state next) s)
    (moved : ∀ q s s', R q s → E.moves s s' → R q s')
    (start : R p s) : E.Upholds D p s post := by
  intro q t h
  induction h with
  | here p s => exact met p s start
  | answered ha _ ih => exact ih (answered _ _ _ _ _ start ha)
  | repeated _ ih => exact ih (repeated _ _ _ _ start)
  | moved hm _ ih => exact ih (moved _ _ _ start hm)

/-- A weaker promise. -/
theorem mono {post' : α → σ → Prop} (h : E.Upholds D p s post)
    (hpost : ∀ a t, post a t → post' a t) : E.Upholds D p s post' := by
  intro q t hr
  have hm := h hr
  cases q with
  | done a => exact ⟨hm.1, hpost a t hm.2⟩
  | ask r next => exact hm
  | iterate body state next => exact hm

end Upholds

/-- The duty of a program of which nothing is demanded. -/
def Duty.free : Duty σ where
  always _ := True
  asking _ _ _ := True

theorem Upholds.free {E : Surroundings σ} (p : Program α) (s : σ) :
    E.Upholds .free p s fun _ _ => True := by
  intro q t _
  cases q with
  | done a => exact ⟨trivial, trivial⟩
  | ask r next => exact ⟨trivial, trivial⟩
  | iterate body state next => exact trivial

/-! ## 4. One rule for each way of building a program -/

/-- A set of states in which a duty's standing part holds, and which the surroundings do not leave
by themselves. -/
structure Condition (E : Surroundings σ) (D : Duty σ) where
  holds : σ → Prop
  stable : E.Stable holds
  always : ∀ ⦃s⦄, holds s → D.always s

/-- No condition at all. -/
def Condition.any (E : Surroundings σ) : Condition E .free where
  holds _ := True
  stable _ _ _ _ := trivial
  always _ _ := trivial

namespace Upholds

variable {E : Surroundings σ} {D : Duty σ} {s : σ} {post : α → σ → Prop}

theorem done (C : Condition E D) {a : α} (hs : C.holds s) (hpost : ∀ t, C.holds t → post a t) :
    E.Upholds D (.done a) s post :=
  of_invariant (R := fun q t => q = .done a ∧ C.holds t)
    (fun _ t ⟨hq, ht⟩ => hq ▸ ⟨C.always ht, hpost t ht⟩)
    (fun _ _ _ _ _ ⟨hq, _⟩ => nomatch hq)
    (fun _ _ _ _ ⟨hq, _⟩ => nomatch hq)
    (fun _ _ _ ⟨hq, ht⟩ hm => ⟨hq, C.stable hm ht⟩)
    ⟨rfl, hs⟩

theorem ask (C : Condition E D) {r : Request β} {next : β → Program α} (hs : C.holds s)
    (hask : ∀ t, C.holds t → D.asking r t)
    (hnext : ∀ t b t', C.holds t → E.answers r t b t' → E.Upholds D (next b) t' post) :
    E.Upholds D (.ask r next) s post := by
  refine of_invariant
    (R := fun q t => (q = .ask r next ∧ C.holds t) ∨ E.Upholds D q t post) ?_ ?_ ?_ ?_
    (Or.inl ⟨rfl, hs⟩)
  · rintro q t (⟨rfl, ht⟩ | h)
    · exact ⟨C.always ht, hask t ht⟩
    · exact h.here
  · rintro β' r' next' t b t' (⟨hq, ht⟩ | h) ha
    · cases hq
      exact Or.inr (hnext t b t' ht ha)
    · exact Or.inr (h.answered ha)
  · rintro τ β' body state next' t (⟨hq, -⟩ | h)
    · exact nomatch hq
    · exact Or.inr h.repeated
  · rintro q t t' (⟨rfl, ht⟩ | h) hm
    · exact Or.inl ⟨rfl, C.stable hm ht⟩
    · exact Or.inr (h.moved hm)

/-- The rule for a request in front of what uses its answer. -/
theorem request (C : Condition E D) {r : Request β} {f : β → Program α} (hs : C.holds s)
    (hask : ∀ t, C.holds t → D.asking r t)
    (hnext : ∀ t b t', C.holds t → E.answers r t b t' → E.Upholds D (f b) t' post) :
    E.Upholds D (Program.request r >>= f) s post := ask C hs hask hnext

theorem bind {p : Program β} {f : β → Program α} {M : β → σ → Prop}
    (hp : E.Upholds D p s M) (hf : ∀ b t, M b t → E.Upholds D (f b) t post) :
    E.Upholds D (p >>= f) s post := by
  -- the moments inside the first program, and those after it
  refine of_invariant (R := fun q t =>
    (∃ p', q = Program.bind p' f ∧ E.Upholds D p' t M) ∨ E.Upholds D q t post) ?_ ?_ ?_ ?_
    (Or.inl ⟨p, rfl, hp⟩)
  · rintro q t (⟨p', rfl, h⟩ | h)
    · cases p' with
      | done b => exact (hf b t h.here.2).here
      | ask r next => exact h.here
      | iterate body state next => exact h.here
    · exact h.here
  · rintro β' r next t b t' (⟨p', hq, h⟩ | h) ha
    · cases p' with
      | done a =>
        have hd : E.Upholds D (.ask r next) t post := hq ▸ hf a t h.here.2
        exact Or.inr (hd.answered ha)
      | ask r' next' =>
        cases hq
        exact Or.inl ⟨next' b, rfl, h.answered ha⟩
      | iterate body state next' => exact nomatch hq
    · exact Or.inr (h.answered ha)
  · rintro τ β' body state next t (⟨p', hq, h⟩ | h)
    · cases p' with
      | done a =>
        have hd : E.Upholds D (.iterate body state next) t post := hq ▸ hf a t h.here.2
        exact Or.inr hd.repeated
      | ask r' next' => exact nomatch hq
      | iterate body' state' next' =>
        cases hq
        exact Or.inl ⟨_, (Program.unfold_bind f).symm, h.repeated⟩
    · exact Or.inr h.repeated
  · rintro q t t' (⟨p', rfl, h⟩ | h) hm
    · exact Or.inl ⟨p', rfl, h.moved hm⟩
    · exact Or.inr (h.moved hm)

/-- What one turn of a repetition promises: before another turn `J`, and after the last `rest`. -/
def Turn (J : τ → σ → Prop) (rest : β → σ → Prop) : τ ⊕ β → σ → Prop
  | .inl i, t => J i t
  | .inr b, t => rest b t

/-- A repetition keeps a duty if each of its turns does.  `J` is what holds before each turn. -/
theorem iterate (J : τ → σ → Prop) {body : τ → Program (τ ⊕ β)} {state : τ}
    {next : β → Program α}
    (turn : ∀ i t, J i t →
      E.Upholds D (body i) t (Turn J fun b u => E.Upholds D (next b) u post))
    (start : J state s) : E.Upholds D (.iterate body state next) s post := by
  let promise : τ ⊕ β → σ → Prop := Turn J fun b u => E.Upholds D (next b) u post
  -- the moments between two turns, those inside a turn, and those after the last
  refine of_invariant (R := fun q t =>
    (∃ i, q = .iterate body i next ∧ E.Upholds D (body i) t promise) ∨
    (∃ p, q = Program.bind p (.resume body next) ∧ E.Upholds D p t promise) ∨
    E.Upholds D q t post) ?_ ?_ ?_ ?_ (Or.inl ⟨state, rfl, turn state s start⟩)
  · rintro q t (⟨i, rfl, h⟩ | ⟨p, rfl, h⟩ | h)
    · exact h.here.always
    · cases p with
      | done x =>
        cases x with
        | inl i => exact (turn i t h.here.2).here.always
        | inr b => exact h.here.2.here
      | ask r next => exact h.here
      | iterate body state next => exact h.here
    · exact h.here
  · rintro β' r next' t b t' (⟨i, hq, -⟩ | ⟨p, hq, h⟩ | h) ha
    · exact nomatch hq
    · cases p with
      | done x =>
        cases x with
        | inl i => exact nomatch hq
        | inr b' =>
          have hd : E.Upholds D (.ask r next') t post := hq ▸ h.here.2
          exact Or.inr (Or.inr (hd.answered ha))
      | ask r' next'' =>
        cases hq
        exact Or.inr (Or.inl ⟨next'' b, rfl, h.answered ha⟩)
      | iterate body' state' next'' => exact nomatch hq
    · exact Or.inr (Or.inr (h.answered ha))
  · rintro τ' β' body' state' next' t (⟨i, hq, h⟩ | ⟨p, hq, h⟩ | h)
    · cases hq
      exact Or.inr (Or.inl ⟨body i, rfl, h⟩)
    · cases p with
      | done x =>
        cases x with
        | inl i =>
          cases hq
          exact Or.inr (Or.inl ⟨body i, rfl, turn i t h.here.2⟩)
        | inr b =>
          have hd : E.Upholds D (.iterate body' state' next') t post := hq ▸ h.here.2
          exact Or.inr (Or.inr hd.repeated)
      | ask r next => exact nomatch hq
      | iterate body'' state'' next'' =>
        cases hq
        exact Or.inr (Or.inl ⟨_, (Program.unfold_bind _).symm, h.repeated⟩)
    · exact Or.inr (Or.inr h.repeated)
  · rintro q t t' (⟨i, rfl, h⟩ | ⟨p, rfl, h⟩ | h) hm
    · exact Or.inl ⟨i, rfl, h.moved hm⟩
    · exact Or.inr (Or.inl ⟨p, rfl, h.moved hm⟩)
    · exact Or.inr (Or.inr (h.moved hm))

/-- A program of which no more is known than what it may ask for keeps a condition that none of
those requests ends. -/
theorem of_asks (C : Condition E D) {A : ⦃β : Type⦄ → Request β → Prop} {p : Program α}
    (hp : p.Asks A)
    (keep : ∀ {β : Type} (r : Request β) (t : σ), A r → C.holds t →
      D.asking r t ∧ ∀ b t', E.answers r t b t' → C.holds t')
    (hs : C.holds s) : E.Upholds D p s fun _ t => C.holds t := by
  refine of_invariant (R := fun q t => q.Asks A ∧ C.holds t) ?_ ?_ ?_ ?_ ⟨hp, hs⟩
  · rintro (a | ⟨r, next⟩ | ⟨body, state, next⟩) t ⟨hq, ht⟩
    · exact ⟨C.always ht, ht⟩
    · exact ⟨C.always ht, (keep r t hq.1 ht).1⟩
    · exact C.always ht
  · exact fun r next t b t' ⟨hq, ht⟩ ha => ⟨hq.2 b, (keep r t hq.1 ht).2 b t' ha⟩
  · exact fun body state next t ⟨hq, ht⟩ => ⟨Program.asks_unfold hq, ht⟩
  · exact fun q t t' ⟨hq, ht⟩ hm => ⟨hq, C.stable hm ht⟩

end Upholds

/-- **What each step keeps, a run keeps.**  Of an answer it may be assumed that what was asked for
was in keeping with a duty that the program keeps. -/
theorem Upholds.keeps {E : Surroundings σ} {D : Duty σ} {p q : Program α} {s t : σ}
    {post : α → σ → Prop} {I : σ → Prop} (h : E.Upholds D p s post)
    (answered : ∀ {β : Type} (r : Request β) (s : σ) (b : β) (s' : σ), D.asking r s →
      E.answers r s b s' → I s → I s')
    (moved : E.Stable I) (hr : E.Reaches p s q t) (hs : I s) : I t := by
  induction hr with
  | here => exact hs
  | answered ha _ ih => exact ih (h.answered ha) (answered _ _ _ _ h.here.2 ha hs)
  | repeated _ ih => exact ih h.repeated hs
  | moved hm _ ih => exact ih (h.moved hm) (moved hm hs)

/-- A run, seen through a function of the state. -/
theorem Reaches.map {τ : Type v} {E : Surroundings σ} {F : Surroundings τ} (f : σ → τ)
    (answers : ∀ {β : Type} {r : Request β} {s : σ} {b : β} {s' : σ}, E.answers r s b s' →
      F.answers r (f s) b (f s'))
    (moves : ∀ {s s' : σ}, E.moves s s' → f s' = f s) {p q : Program α} {s t : σ}
    (h : E.Reaches p s q t) : F.Reaches p (f s) q (f t) := by
  induction h with
  | here p s => exact .here p (f s)
  | answered ha _ ih => exact .answered (answers ha) ih
  | repeated _ ih => exact .repeated ih
  | moved hm _ ih => exact moves hm ▸ ih

/-- A duty to be kept by what a function makes of the state. -/
def Duty.comap {τ : Type v} (f : σ → τ) (D : Duty τ) : Duty σ where
  always s := D.always (f s)
  asking _ r s := D.asking r (f s)

/-- What is kept as far as a function of the state tells. -/
theorem Upholds.comap {τ : Type v} {E : Surroundings σ} {F : Surroundings τ} {D : Duty τ}
    (f : σ → τ)
    (answers : ∀ {β : Type} {r : Request β} {s : σ} {b : β} {s' : σ}, E.answers r s b s' →
      F.answers r (f s) b (f s'))
    (moves : ∀ {s s' : σ}, E.moves s s' → f s' = f s) {p : Program α} {s : σ}
    {post : α → τ → Prop} (h : F.Upholds D p (f s) post) :
    E.Upholds (D.comap f) p s fun a t => post a (f t) := by
  intro q t hr
  have hm := h (hr.map f answers moves)
  cases q with
  | done a => exact hm
  | ask r next => exact hm
  | iterate body state next => exact hm

/-! ## 5. The history of a run -/

/-- A request together with its answer. -/
structure Exchange where
  {β : Type}
  request : Request β
  answer : β

/-- The same surroundings, with the history of all answers beside their state. -/
def recorded (E : Surroundings σ) : Surroundings (σ × List Exchange) where
  answers _ r s b s' := E.answers r s.1 b s'.1 ∧ s'.2 = s.2 ++ [⟨r, b⟩]
  moves s s' := E.moves s.1 s'.1 ∧ s'.2 = s.2

/-! ## 6. Surroundings that answer in one way -/

/-- A way to answer everything, as surroundings may. -/
structure Player (E : Surroundings σ) where
  /-- The answer, and the state after it, if there is one. -/
  answer : ⦃β : Type⦄ → Request β → σ → Option (β × σ)
  possible : ∀ {β : Type} {r : Request β} {s s' : σ} {b : β},
    answer r s = some (b, s') → E.answers r s b s'

/-- A program after a number of steps, or as far as it gets. -/
def Player.play {E : Surroundings σ} (P : Player E) : Nat → Program α → σ → Program α × σ
  | 0, p, s => (p, s)
  | _ + 1, .done a, s => (.done a, s)
  | n + 1, .ask r next, s =>
    match P.answer r s with
    | some (b, s) => P.play n (next b) s
    | none => (.ask r next, s)
  | n + 1, .iterate body state next, s => P.play n (.unfold body state next) s

/-- What is played is a run. -/
theorem Player.reaches {E : Surroundings σ} (P : Player E) (n : Nat) (p : Program α) (s : σ) :
    E.Reaches p s (P.play n p s).1 (P.play n p s).2 := by
  induction n generalizing p s with
  | zero => exact .here p s
  | succ _ ih =>
    cases p with
    | done a => exact .here _ s
    | ask r next =>
      simp only [play]
      split
      next b s' hb => exact .answered (P.possible hb) (ih (next b) s')
      next => exact .here _ s
    | iterate body state next => exact .repeated (ih _ s)

/-- The same answers, with their history. -/
def Player.recorded {E : Surroundings σ} (P : Player E) : Player E.recorded where
  answer _ r s := (P.answer r s.1).map fun (b, t) => (b, t, s.2 ++ [⟨r, b⟩])
  possible := by
    intro β r s s' b hb
    obtain ⟨⟨b', t⟩, ha, he⟩ := Option.map_eq_some_iff.mp hb
    cases he
    exact ⟨P.possible ha, rfl⟩

end Surroundings
end ServerWarden
