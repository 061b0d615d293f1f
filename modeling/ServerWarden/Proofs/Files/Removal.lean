/-
# Removing a file

A file that was removed is gone (`FileTree.has_of_remove`), and nothing else is
(`FileTree.at?_of_remove`).  That the path still leads to the same place afterwards is the point: it
leads through directories only, and what was removed is none.  Whatever can be read as a text can
also be removed (`FileTree.exists_remove`).
-/
import ServerWarden.Files.Tree
import ServerWarden.Proofs.Lists

namespace ServerWarden.FileTree

variable {t rest : FileTree} {p q start : Place} {path text : String} {node : FileNode}

/-! ## 1. A tree with one place less -/

theorem at?_erase_self (hp : p ≠ []) : (t.erase p).at? p = none := by
  rw [at?, if_neg (by simpa using hp)]
  exact lookup_filter_self

theorem at?_erase_of_ne (h : q ≠ p) : (t.erase p).at? q = t.at? q := by
  unfold at? erase
  split
  · rfl
  · exact lookup_filter_ne h

/-- A walk does not come through a place that is no directory. -/
theorem walk_erase {steps : List String} (hp : t.at? p ≠ some .directory)
    (h : t.walk start steps = .ok q) : (t.erase p).walk start steps = .ok q := by
  induction steps generalizing start with
  | nil => exact h
  | cons step steps ih =>
    rw [walk] at h ⊢
    split at h
    · exact nomatch h
    · next hdir =>
      have hne : start ≠ p := by
        rintro rfl
        exact hp hdir
      rw [at?_erase_of_ne hne, hdir]
      dsimp only
      split at h
      · next hstay => rw [if_pos hstay, ih h]
      · next hstay =>
        rw [if_neg hstay]
        split at h
        · next hup => rw [if_pos hup, ih h]
        · next hup =>
          rw [if_neg hup]
          split at h
          · exact nomatch h
          · next hlong => rw [if_neg hlong, ih h]
    · exact nomatch h

theorem resolve_erase (hp : t.at? p ≠ some .directory) (h : t.resolve path = .ok q) :
    (t.erase p).resolve path = .ok q := by
  unfold resolve at h ⊢
  split at h
  · exact nomatch h
  · next hempty =>
    rw [if_neg hempty]
    split at h
    · exact nomatch h
    · next hzero =>
      rw [if_neg hzero]
      exact walk_erase hp h

/-! ## 2. Finding and removing -/

theorem find_eq_ok : t.find path = .ok node ↔ ∃ p, t.resolve path = .ok p ∧ t.at? p = some node := by
  unfold find
  cases hresolve : t.resolve path with
  | error e => simp [bind, Except.bind]
  | ok p =>
    cases hat : t.at? p <;> simp [bind, Except.bind, hat]

theorem has_eq_true : t.has path = true ↔ ∃ node, t.find path = .ok node := by
  unfold has
  cases t.find path <;> simp

/-- **What a removal does**: a path leads to a place that is no directory, and that is erased. -/
theorem remove_eq_ok : t.remove path = .ok rest ↔ ∃ p node, t.resolve path = .ok p ∧
    t.at? p = some node ∧ node ≠ .directory ∧ rest = t.erase p := by
  unfold remove
  cases hresolve : t.resolve path with
  | error e => simp [bind, Except.bind]
  | ok p =>
    cases hat : t.at? p with
    | none => simp [bind, Except.bind, hat]
    | some node => cases node <;> simp [bind, Except.bind, hat, eq_comm]

theorem has_before_remove (h : t.remove path = .ok rest) : t.has path = true := by
  obtain ⟨p, node, hresolve, hat, -⟩ := remove_eq_ok.mp h
  exact has_eq_true.mpr ⟨node, find_eq_ok.mpr ⟨p, hresolve, hat⟩⟩

/-- **What was removed is gone.** -/
theorem has_of_remove (h : t.remove path = .ok rest) : rest.has path = false := by
  obtain ⟨p, node, hresolve, hat, hnode, rfl⟩ := remove_eq_ok.mp h
  have hroot : p ≠ [] := by
    rintro rfl
    exact hnode (Option.some.inj hat).symm
  have hp : t.at? p ≠ some .directory := by simpa [hat] using hnode
  refine Bool.eq_false_iff.mpr ?_
  intro hhas
  obtain ⟨node', hfind⟩ := has_eq_true.mp hhas
  obtain ⟨p', hresolve', hat'⟩ := find_eq_ok.mp hfind
  rw [resolve_erase hp hresolve] at hresolve'
  cases hresolve'
  rw [at?_erase_self hroot] at hat'
  exact nomatch hat'

/-- **Nothing else is gone.** -/
theorem at?_of_remove (h : t.remove path = .ok rest) (hq : t.resolve path ≠ .ok q) :
    rest.at? q = t.at? q := by
  obtain ⟨p, node, hresolve, -, -, rfl⟩ := remove_eq_ok.mp h
  refine at?_erase_of_ne ?_
  rintro rfl
  exact hq hresolve

theorem find_of_readText (h : t.readText path = .ok text) :
    ∃ node, t.find path = .ok node ∧ node ≠ .directory := by
  unfold readText read at h
  cases hfind : t.find path with
  | error e => simp [hfind, bind, Except.bind] at h
  | ok node =>
    refine ⟨node, rfl, ?_⟩
    rintro rfl
    simp [hfind, bind, Except.bind] at h

theorem has_of_readText (h : t.readText path = .ok text) : t.has path = true := by
  obtain ⟨node, hfind, -⟩ := find_of_readText h
  exact has_eq_true.mpr ⟨node, hfind⟩

/-- **Whatever can be read can be removed.** -/
theorem exists_remove (h : t.readText path = .ok text) : ∃ rest, t.remove path = .ok rest := by
  obtain ⟨node, hfind, hnode⟩ := find_of_readText h
  obtain ⟨p, hresolve, hat⟩ := find_eq_ok.mp hfind
  exact ⟨t.erase p, remove_eq_ok.mpr ⟨p, node, hresolve, hat, hnode, rfl⟩⟩

end ServerWarden.FileTree
