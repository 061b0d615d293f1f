/-
# Control programs that come to an end

`Surroundings.Upholds` is about every run, but a run need not get anywhere: it may go round for
ever, and it may stand at a request that has no answer.  `Surroundings.Completes` is about the
whole tree of runs, and that tree is finite along each branch: a program keeps its duty, and every
run of it that gets its answers comes to its end.  With a duty that every request can be answered,
this is `Surroundings.Returns`.

The rules are those of `Upholds`, and `Completes.iterate` asks for a measure in addition, which goes
down from turn to turn.
-/
import Mathlib.Logic.Relation
import ServerWarden.Proofs.Control.Surroundings

namespace ServerWarden

universe u

namespace Surroundings

variable {σ : Type u} {α β τ : Type}

/-- What a state may become without a request. -/
def Moved (E : Surroundings σ) : σ → σ → Prop := Relation.ReflTransGen E.moves

theorem Moved.refl (E : Surroundings σ) (s : σ) : E.Moved s s := Relation.ReflTransGen.refl

theorem Stable.moved {E : Surroundings σ} {P : σ → Prop} {s t : σ} (hP : E.Stable P)
    (hm : E.Moved s t) (hs : P s) : P t := by
  induction hm with
  | refl => exact hs
  | tail _ hstep ih => exact hP hstep ih

/-- **A program keeps a duty to its end.**  It does so in every run from a state, no run goes on for
ever, and its result is as promised. -/
inductive Completes (E : Surroundings σ) (D : Duty σ) {α : Type} (post : α → σ → Prop) :
    Program α → σ → Prop where
  | ended {a : α} {s : σ} :
      (∀ t, E.Moved s t → D.always t ∧ post a t) → Completes E D post (.done a) s
  | asked {β : Type} {r : Request β} {next : β → Program α} {s : σ} :
      (∀ t, E.Moved s t → D.always t ∧ D.asking r t) →
      (∀ t b t', E.Moved s t → E.answers r t b t' → Completes E D post (next b) t') →
      Completes E D post (.ask r next) s
  | repeated {τ β : Type} {body : τ → Program (τ ⊕ β)} {state : τ} {next : β → Program α}
      {s : σ} : Completes E D post (.unfold body state next) s →
      Completes E D post (.iterate body state next) s

/-- **A program returns**: whatever it asks for can be answered, and no run goes on for ever. -/
def Returns (E : Surroundings σ) (p : Program α) (s : σ) : Prop :=
  E.Completes ⟨fun _ => True, fun _ r t => ∃ b t', E.answers r t b t'⟩ (fun _ _ => True) p s

namespace Completes

variable {E : Surroundings σ} {D : Duty σ} {p : Program α} {s t : σ} {post : α → σ → Prop}

theorem always (h : E.Completes D post p s) : D.always s := by
  induction h with
  | ended h => exact (h _ (.refl E _)).1
  | asked h _ _ => exact (h _ (.refl E _)).1
  | repeated _ ih => exact ih

theorem moved (h : E.Completes D post p s) (hm : E.Moved s t) : E.Completes D post p t := by
  induction h generalizing t with
  | ended h => exact .ended fun u hu => h u (hm.trans hu)
  | asked h hnext _ =>
    exact .asked (fun u hu => h u (hm.trans hu)) fun u b u' hu ha => hnext u b u' (hm.trans hu) ha
  | repeated _ ih => exact .repeated (ih hm)

/-- What is kept to the end is kept in every run. -/
theorem upholds (h : E.Completes D post p s) : E.Upholds D p s post := by
  refine Upholds.of_invariant (R := fun q t => E.Completes D post q t) ?_ ?_ ?_ ?_ h
  · intro q t hq
    cases hq with
    | ended hd => exact hd t (.refl E t)
    | asked hd _ => exact hd t (.refl E t)
    | repeated hd => exact hd.always
  · intro β r next t b t' hq ha
    cases hq with
    | asked _ hnext => exact hnext t b t' (.refl E t) ha
  · intro τ β body state next t hq
    cases hq with
    | repeated hd => exact hd
  · intro q t t' hq hm
    exact hq.moved (Relation.ReflTransGen.single hm)

/-- A weaker promise. -/
theorem mono {post' : α → σ → Prop} (h : E.Completes D post p s)
    (hpost : ∀ a t, post a t → post' a t) : E.Completes D post' p s := by
  induction h with
  | ended h => exact .ended fun t hm => ⟨(h t hm).1, hpost _ t (h t hm).2⟩
  | asked h _ ih => exact .asked h ih
  | repeated _ ih => exact .repeated ih

/-- A program that keeps a duty under which whatever is asked for can be answered returns. -/
theorem returns (h : E.Completes D post p s)
    (hask : ∀ {β : Type} (r : Request β) (t : σ), D.asking r t → ∃ b t', E.answers r t b t') :
    E.Returns p s := by
  induction h with
  | ended h => exact .ended fun _ _ => ⟨trivial, trivial⟩
  | asked h _ ih => exact .asked (fun t hm => ⟨trivial, hask _ t (h t hm).2⟩) ih
  | repeated _ ih => exact .repeated ih

theorem done (C : Condition E D) {a : α} (hs : C.holds s) (hpost : ∀ t, C.holds t → post a t) :
    E.Completes D post (.done a) s := by
  refine .ended fun t hm => ?_
  have ht : C.holds t := C.stable.moved hm hs
  exact ⟨C.always ht, hpost t ht⟩

theorem ask (C : Condition E D) {r : Request β} {next : β → Program α} (hs : C.holds s)
    (hask : ∀ t, C.holds t → D.asking r t)
    (hnext : ∀ t b t', C.holds t → E.answers r t b t' → E.Completes D post (next b) t') :
    E.Completes D post (.ask r next) s := by
  refine .asked (fun t hm => ?_) fun t b t' hm ha => hnext t b t' (C.stable.moved hm hs) ha
  have ht : C.holds t := C.stable.moved hm hs
  exact ⟨C.always ht, hask t ht⟩

/-- The rule for a request in front of what uses its answer. -/
theorem request (C : Condition E D) {r : Request β} {f : β → Program α} (hs : C.holds s)
    (hask : ∀ t, C.holds t → D.asking r t)
    (hnext : ∀ t b t', C.holds t → E.answers r t b t' → E.Completes D post (f b) t') :
    E.Completes D post (Program.request r >>= f) s := ask C hs hask hnext

theorem bind {p : Program β} {f : β → Program α} {M : β → σ → Prop}
    (hp : E.Completes D M p s) (hf : ∀ b t, M b t → E.Completes D post (f b) t) :
    E.Completes D post (p >>= f) s := by
  show E.Completes D post (p.bind f) s
  induction hp with
  | ended h => exact hf _ _ (h _ (.refl E _)).2
  | asked h _ ih => exact .asked h ih
  | repeated _ ih => exact .repeated (Program.unfold_bind f ▸ ih)

/-- **A repetition comes to an end** if each of its turns does and makes a measure smaller. -/
theorem iterate (J : τ → σ → Prop) (measure : τ → σ → Nat) {body : τ → Program (τ ⊕ β)}
    {state : τ} {next : β → Program α}
    (turn : ∀ i t, J i t → E.Completes D (Upholds.Turn
      (fun j u => J j u ∧ measure j u < measure i t) fun b u => E.Completes D post (next b) u)
      (body i) t)
    (start : J state s) : E.Completes D post (.iterate body state next) s := by
  generalize hn : measure state s = n
  induction n using Nat.strongRecOn generalizing state s with
  | ind n ih =>
    refine .repeated (bind (turn state s start) fun x t hx => ?_)
    cases x with
    | inl i => exact ih (measure i t) (hn ▸ hx.2) hx.1 rfl
    | inr b => exact hx

end Completes
end Surroundings
end ServerWarden
