/-
# What a coordinator remembers is what its history says

A coordinator keeps a phase and three flags, and forgets which calls made them so.  Here every call
leaves an event, with the answer that it got, and the events alone tell what the next call answers:

* the phase is the one that was set last, or the last phase once that was set (`phaseAfter`);
* a check is due if it was raised and accepted since signals were last taken (`Raised`);
* a stop is due from the first request on.

`Accounted` says that phase and flags agree with a history.  Each call keeps it
(`Accounted.perform`), so it holds after every sequence of calls (`Accounted.performAll`), and what
a raise and a take answer is read off from it: no accepted check is lost or handed out twice, and no
stop request is used up.
-/
import Mathlib.Data.List.DropRight
import ServerWarden.Coordinator.Basic

namespace ServerWarden.Coordinator

/-! ## 1. Calls and their history -/

/-- What other tasks ask of a coordinator. -/
inductive Call where
  | setPhase (p : TimerPhase)
  | emit (s : Signals)
  | requestStop
  | take
  deriving DecidableEq, Repr

/-- A call that was made, with its answer. -/
inductive Event where
  | phaseSet (p : TimerPhase)
  | emitted (s : Signals) (accepted : Bool)
  | stopRequested
  | taken (s : Option Signals)
  deriving DecidableEq, Repr

def perform (c : Coordinator) : Call → Event × Coordinator
  | .setPhase p => (.phaseSet p, c.setPhase p)
  | .emit s => (.emitted s (c.emit s).1, (c.emit s).2)
  | .requestStop => (.stopRequested, c.requestStop)
  | .take =>
    match c.takeSignals? with
    | some (s, c) => (.taken (some s), c)
    | none => (.taken none, c)

/-- The history of some calls, one after another, and the coordinator after them. -/
def performAll (c : Coordinator) : List Call → List Event × Coordinator
  | [] => ([], c)
  | call :: calls =>
    let (event, c) := c.perform call
    let (events, c) := c.performAll calls
    (event :: events, c)

/-! ## 2. What a history says -/

def Event.phase? : Event → Option TimerPhase
  | .phaseSet p => some p
  | _ => none

/-- Signals were handed out. -/
def Event.isDelivery : Event → Bool
  | .taken s => s.isSome
  | _ => false

/-- The phases that were asked for, in their order. -/
def phasesSet (history : List Event) : List TimerPhase := history.filterMap Event.phase?

/-- The phase after a history: the last one that was set, and the last phase of all once it was. -/
def phaseAfter (history : List Event) : TimerPhase :=
  if .stop ∈ phasesSet history then .stop else (phasesSet history).getLast?.getD .run

/-- The events since signals were last handed out. -/
def sinceDelivery (history : List Event) : List Event :=
  history.rtakeWhile fun e => !e.isDelivery

/-- A check was raised and accepted since signals were last handed out. -/
def Raised (check : Signals → Bool) (history : List Event) : Prop :=
  ∃ s, .emitted s true ∈ sinceDelivery history ∧ check s = true

variable {history : List Event} {c : Coordinator} {check : Signals → Bool}

theorem phasesSet_append (e : Event) :
    phasesSet (history ++ [e]) = phasesSet history ++ e.phase?.toList := by
  simp [phasesSet, List.filterMap_append, List.filterMap_cons]
  cases e.phase? <;> rfl

theorem phaseAfter_append_of_none {e : Event} (he : e.phase? = none) :
    phaseAfter (history ++ [e]) = phaseAfter history := by
  simp [phaseAfter, phasesSet_append, he]

/-- The last phase of all stays; before it, the phase that was set last counts. -/
theorem phaseAfter_append_phaseSet (p : TimerPhase) :
    phaseAfter (history ++ [.phaseSet p])
      = if phaseAfter history = .stop then .stop else p := by
  have happ : phasesSet (history ++ [.phaseSet p]) = phasesSet history ++ [p] := by
    rw [phasesSet_append]
    rfl
  by_cases hs : .stop ∈ phasesSet history
  · simp [phaseAfter, happ, hs]
  · have hne : phaseAfter history ≠ .stop := by
      intro heq
      rw [phaseAfter, if_neg hs] at heq
      cases hlast : (phasesSet history).getLast? with
      | none => simp [hlast] at heq
      | some q =>
        rw [hlast] at heq
        exact hs (heq ▸ List.mem_of_getLast? hlast)
    rw [if_neg hne]
    cases p <;> simp [phaseAfter, happ, hs]

theorem sinceDelivery_append (e : Event) :
    sinceDelivery (history ++ [e])
      = if e.isDelivery then [] else sinceDelivery history ++ [e] := by
  cases he : e.isDelivery <;> simp [sinceDelivery, he]

theorem raised_append_of_quiet {e : Event} (hd : e.isDelivery = false)
    (he : ∀ s, e ≠ .emitted s true) :
    Raised check (history ++ [e]) ↔ Raised check history := by
  have hmem : ∀ s, Event.emitted s true ∈ sinceDelivery (history ++ [e])
      ↔ Event.emitted s true ∈ sinceDelivery history := by
    intro s
    rw [sinceDelivery_append, hd]
    simp [(he s).symm]
  simp [Raised, hmem]

theorem raised_append_emitted (s : Signals) :
    Raised check (history ++ [.emitted s true]) ↔ Raised check history ∨ check s = true := by
  have happ : sinceDelivery (history ++ [.emitted s true])
      = sinceDelivery history ++ [.emitted s true] := sinceDelivery_append _
  constructor
  · rintro ⟨t, ht, hc⟩
    rw [happ, List.mem_append, List.mem_singleton] at ht
    rcases ht with ht | ht
    · exact Or.inl ⟨t, ht, hc⟩
    · cases ht
      exact Or.inr hc
  · rintro (⟨t, ht, hc⟩ | hc)
    · exact ⟨t, happ ▸ List.mem_append_left _ ht, hc⟩
    · exact ⟨s, happ ▸ List.mem_append_right _ (List.mem_singleton_self _), hc⟩

/-- Nothing is raised any more once signals were handed out. -/
theorem not_raised_append_delivery (s : Signals) :
    ¬ Raised check (history ++ [.taken (some s)]) := by
  rintro ⟨t, ht, -⟩
  rw [sinceDelivery_append] at ht
  exact absurd ht (List.not_mem_nil)

/-! ## 3. What each call keeps -/

/-- **Phase and flags agree with a history.** -/
structure Accounted (history : List Event) (c : Coordinator) : Prop where
  phase : c.phase = phaseAfter history
  stop : c.signals.stop = true ↔ .stopRequested ∈ history
  health : c.signals.healthCheck = true ↔ Raised Signals.healthCheck history
  update : c.signals.updateCheck = true ↔ Raised Signals.updateCheck history

theorem Accounted.initial : Accounted [] Coordinator.initial := by
  constructor <;> simp [Coordinator.initial, Signals.none, phaseAfter, phasesSet, Raised,
    sinceDelivery, List.rtakeWhile]

/-- An event that neither sets a phase nor raises, asks or hands out anything. -/
theorem Accounted.append_of_quiet {e : Event} (ha : Accounted history c) (hp : e.phase? = none)
    (hd : e.isDelivery = false) (he : ∀ s, e ≠ .emitted s true) (hs : e ≠ .stopRequested) :
    Accounted (history ++ [e]) c where
  phase := by rw [phaseAfter_append_of_none hp, ha.phase]
  stop := by simp [ha.stop, hs.symm]
  health := by rw [raised_append_of_quiet hd he, ha.health]
  update := by rw [raised_append_of_quiet hd he, ha.update]

theorem setPhase_signals (c : Coordinator) (p : TimerPhase) :
    (c.setPhase p).signals = c.signals := by
  by_cases h : c.phase = .stop ∨ c.phase = p <;> simp [setPhase, changePhase?, h, wakeTimer]

theorem setPhase_phase (c : Coordinator) (p : TimerPhase) :
    (c.setPhase p).phase = if c.phase = .stop then .stop else p := by
  by_cases hs : c.phase = .stop
  · simp [setPhase, changePhase?, hs]
  · by_cases hp : c.phase = p
    · simp [setPhase, changePhase?, hp]
    · simp [setPhase, changePhase?, hs, hp, wakeTimer]

/-- A raise is accepted exactly while the timer runs. -/
theorem emit_accepted (c : Coordinator) (s : Signals) :
    (c.emit s).1 = decide (c.phase = .run) := by
  by_cases h : c.phase = .run <;> simp [emit, addSignals?, h]

/-- A raise that is not accepted changes nothing. -/
theorem emit_refused {s : Signals} (h : c.phase ≠ .run) : (c.emit s).2 = c := by
  simp [emit, addSignals?, h]

theorem emit_phase (c : Coordinator) (s : Signals) : (c.emit s).2.phase = c.phase := by
  by_cases h : c.phase = .run <;> simp [emit, addSignals?, h, wakeSupervisor]

theorem emit_signals {s : Signals} (h : c.phase = .run) :
    (c.emit s).2.signals = ⟨c.signals.stop, c.signals.healthCheck || s.healthCheck,
      c.signals.updateCheck || s.updateCheck⟩ := by
  simp [emit, addSignals?, h, wakeSupervisor]

theorem Accounted.setPhase (ha : Accounted history c) (p : TimerPhase) :
    Accounted (history ++ [.phaseSet p]) (c.setPhase p) where
  phase := by rw [setPhase_phase, phaseAfter_append_phaseSet, ha.phase]
  stop := by simp [setPhase_signals, ha.stop]
  health := by
    rw [setPhase_signals, raised_append_of_quiet rfl (fun _ => Event.noConfusion), ha.health]
  update := by
    rw [setPhase_signals, raised_append_of_quiet rfl (fun _ => Event.noConfusion), ha.update]

theorem Accounted.emit (ha : Accounted history c) (s : Signals) :
    Accounted (history ++ [.emitted s (c.emit s).1]) (c.emit s).2 := by
  by_cases h : c.phase = .run
  · have hacc : (c.emit s).1 = true := by simp [emit_accepted, h]
    rw [hacc]
    constructor
    · rw [emit_phase, phaseAfter_append_of_none rfl, ha.phase]
    · simp [emit_signals h, ha.stop]
    · simp [emit_signals h, raised_append_emitted, ha.health]
    · simp [emit_signals h, raised_append_emitted, ha.update]
  · have hacc : (c.emit s).1 = false := by simp [emit_accepted, h]
    rw [hacc, emit_refused h]
    exact ha.append_of_quiet rfl rfl (by simp) (by simp)

theorem Accounted.requestStop (ha : Accounted history c) :
    Accounted (history ++ [.stopRequested]) c.requestStop where
  phase := by rw [phaseAfter_append_of_none rfl, ← ha.phase]; rfl
  stop := by simp [Coordinator.requestStop, markStop, wakeSupervisor]
  health := by
    rw [raised_append_of_quiet rfl (fun _ => Event.noConfusion), ← ha.health]
    rfl
  update := by
    rw [raised_append_of_quiet rfl (fun _ => Event.noConfusion), ← ha.update]
    rfl

theorem Accounted.take {s : Signals} {c' : Coordinator} (ha : Accounted history c)
    (ht : c.takeSignals? = some (s, c')) : Accounted (history ++ [.taken (some s)]) c' := by
  unfold takeSignals? at ht
  split_ifs at ht
  cases ht
  constructor
  · rw [phaseAfter_append_of_none rfl, ← ha.phase]
  · simp [ha.stop]
  · simp [not_raised_append_delivery]
  · simp [not_raised_append_delivery]

/-- **Each call keeps phase and flags in agreement with the history.** -/
theorem Accounted.perform (ha : Accounted history c) (call : Call) :
    Accounted (history ++ [(c.perform call).1]) (c.perform call).2 := by
  cases call with
  | setPhase p => exact ha.setPhase p
  | emit s => exact ha.emit s
  | requestStop => exact ha.requestStop
  | take =>
    unfold Coordinator.perform
    cases ht : c.takeSignals? with
    | none => exact ha.append_of_quiet rfl rfl (by simp) (by simp)
    | some r => exact ha.take ht

/-- **So does every sequence of calls.** -/
theorem Accounted.performAll (ha : Accounted history c) (calls : List Call) :
    Accounted (history ++ (c.performAll calls).1) (c.performAll calls).2 := by
  induction calls generalizing history c with
  | nil => simpa [Coordinator.performAll] using ha
  | cons call calls ih =>
    have h := ih (ha.perform call)
    rwa [List.append_assoc, List.singleton_append] at h

/-! ## 4. What the next call answers -/

/-- The history of some calls on a new coordinator. -/
def historyOf (calls : List Call) : List Event := (initial.performAll calls).1

/-- A new coordinator after some calls. -/
def afterCalls (calls : List Call) : Coordinator := (initial.performAll calls).2

theorem accounted_afterCalls (calls : List Call) :
    Accounted (historyOf calls) (afterCalls calls) := Accounted.initial.performAll calls

theorem perform_take (c : Coordinator) :
    if c.signals.any then (c.perform .take).1 = .taken (some c.signals)
    else c.perform .take = (.taken none, c) := by
  by_cases h : c.signals.any <;> simp [Coordinator.perform, takeSignals?, h]

/-- **Every call is answered from the history alone**, after any calls on a new coordinator.  The
phase is the one that was set last, or the last phase of all once that was set.  A raise is accepted
exactly in the phase in which the timer runs, and changes nothing otherwise.  A take hands out the
checks that were accepted since signals were last handed out, with a stop once one was requested; it
hands out nothing, and changes nothing, exactly if none of these is due. -/
theorem calls_accounted (calls : List Call) :
    (afterCalls calls).phase = phaseAfter (historyOf calls) ∧
    (∀ s, ((afterCalls calls).perform (.emit s)).1
        = .emitted s (decide (phaseAfter (historyOf calls) = .run)) ∧
      (phaseAfter (historyOf calls) ≠ .run →
        ((afterCalls calls).perform (.emit s)).2 = afterCalls calls)) ∧
    ∃ due : Signals,
      (due.stop = true ↔ .stopRequested ∈ historyOf calls) ∧
      (due.healthCheck = true ↔ Raised Signals.healthCheck (historyOf calls)) ∧
      (due.updateCheck = true ↔ Raised Signals.updateCheck (historyOf calls)) ∧
      if due.any then ((afterCalls calls).perform .take).1 = .taken (some due)
      else (afterCalls calls).perform .take = (.taken none, afterCalls calls) := by
  have ha : Accounted (historyOf calls) (afterCalls calls) := accounted_afterCalls calls
  refine ⟨ha.phase, fun s => ⟨?_, fun hp => ?_⟩, (afterCalls calls).signals, ha.stop, ha.health,
    ha.update, perform_take (afterCalls calls)⟩
  · rw [← ha.phase, ← emit_accepted]
    rfl
  · exact emit_refused (ha.phase.trans_ne hp)

/-- Two raises before a take are one, a raise in a pause is none, and a stop is handed out again. -/
example :
    historyOf [.emit ⟨false, true, false⟩, .emit ⟨false, true, false⟩, .setPhase .pause,
      .emit ⟨false, false, true⟩, .requestStop, .take, .take]
    = [.emitted ⟨false, true, false⟩ true, .emitted ⟨false, true, false⟩ true, .phaseSet .pause,
      .emitted ⟨false, false, true⟩ false, .stopRequested, .taken (some ⟨true, true, false⟩),
      .taken (some ⟨true, false, false⟩)] := by decide

end ServerWarden.Coordinator
