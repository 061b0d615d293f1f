/-
# Maps whose names rise

`NameMap.insert` keeps the names of a map rising (`Rising.insert`), so a map that is built by it has
one value for each name, and an entry is in it exactly if it is found by its name
(`Rising.mem_iff`).  Two such maps that answer alike are the same (`Rising.ext`), and leaving out
names is leaving out answers (`find?_filter`).
-/
import Mathlib.Data.List.Sort
import Mathlib.Data.String.Basic
import ServerWarden.NameMap

namespace ServerWarden.NameMap

variable {α : Type} {m m' : NameMap α} {name other : String} {value : α}

/-- The names rise. -/
def Rising (m : NameMap α) : Prop := m.Pairwise fun a b => a.1 < b.1

theorem find?_cons :
    find? ((name, value) :: m) other = if other = name then some value else find? m other := by
  rw [find?, List.lookup_cons]
  by_cases h : other = name
  · rw [if_pos h, beq_iff_eq.mpr h]
  · rw [if_neg h, beq_eq_false_iff_ne.mpr h]
    rfl

theorem find?_insert :
    (insert name value m).find? other = if other = name then some value else m.find? other := by
  induction m with
  | nil => exact find?_cons
  | cons first m ih =>
    obtain ⟨n, v⟩ := first
    rw [insert]
    by_cases heq : name = n
    · rw [if_pos heq, find?_cons, find?_cons, heq]
      split_ifs <;> rfl
    by_cases hlt : name < n
    · rw [if_neg heq, if_pos hlt, find?_cons]
    · rw [if_neg heq, if_neg hlt, find?_cons, find?_cons, ih]
      by_cases hn : other = n
      · rw [if_pos hn, if_pos hn, if_neg fun ho => heq (ho.symm.trans hn)]
      · rw [if_neg hn, if_neg hn]

theorem mem_insert {e : String × α} (h : e ∈ insert name value m) :
    e = (name, value) ∨ e ∈ m := by
  induction m with
  | nil => exact Or.inl (List.mem_singleton.mp h)
  | cons first m ih =>
    simp only [insert] at h
    split_ifs at h with heq hlt
    · exact (List.mem_cons.mp h).imp_right (List.mem_cons_of_mem _)
    · exact List.mem_cons.mp h
    · rcases List.mem_cons.mp h with rfl | h
      · exact Or.inr List.mem_cons_self
      · exact (ih h).imp_right (List.mem_cons_of_mem _)

namespace Rising

/-- **An insert keeps the order.** -/
theorem insert (h : Rising m) : Rising (insert name value m) := by
  induction m with
  | nil => exact List.pairwise_singleton ..
  | cons first m ih =>
    obtain ⟨hfirst, hm⟩ := List.pairwise_cons.mp h
    simp only [NameMap.insert]
    split_ifs with heq hlt
    · exact List.pairwise_cons.mpr ⟨heq ▸ hfirst, hm⟩
    · refine List.pairwise_cons.mpr ⟨?_, h⟩
      intro e he
      rcases List.mem_cons.mp he with rfl | he
      · exact hlt
      · exact lt_trans hlt (hfirst e he)
    · refine List.pairwise_cons.mpr ⟨?_, ih hm⟩
      intro e he
      rcases mem_insert he with rfl | he
      · exact lt_of_le_of_ne (not_lt.mp hlt) (Ne.symm heq)
      · exact hfirst e he

/-- **An entry is found by its name.** -/
theorem mem_iff (h : Rising m) : (name, value) ∈ m ↔ m.find? name = some value := by
  induction m with
  | nil => simp [find?]
  | cons first m ih =>
    obtain ⟨hfirst, hm⟩ := List.pairwise_cons.mp h
    obtain ⟨n, v⟩ := first
    rw [List.mem_cons, ih hm, find?_cons]
    by_cases hn : name = n
    · -- the name is not found further on
      have hnone : find? m name ≠ some value := fun hfound =>
        absurd (hfirst _ ((ih hm).mpr hfound)) (hn ▸ lt_irrefl name)
      simp [hn ▸ hnone, hn, eq_comm]
    · simp [hn]

/-- Maps that answer alike are the same. -/
theorem ext (h : Rising m) (h' : Rising m') (heq : ∀ name, m.find? name = m'.find? name) :
    m = m' := by
  have : Std.Irrefl fun a b : String × α => a.1 < b.1 := ⟨fun a => lt_irrefl a.1⟩
  have : Std.Antisymm fun a b : String × α => a.1 < b.1 :=
    ⟨fun _ _ hab hba => absurd hab hba.asymm⟩
  apply h.eq_of_mem_iff h'
  intro e
  rw [h.mem_iff, h'.mem_iff, heq]

end Rising

/-- Without some names, those are not found and the others as before. -/
theorem find?_filter (keep : String → Bool) :
    find? (m.filter fun e => keep e.1) name = if keep name then m.find? name else none := by
  induction m with
  | nil => exact (ite_self none).symm
  | cons first m ih =>
    obtain ⟨n, v⟩ := first
    rw [List.filter_cons, find?_cons]
    by_cases hn : name = n
    · subst hn
      cases hk : keep name
      · simpa [hk] using ih
      · simp [find?_cons]
    · rw [if_neg hn, ← ih]
      split
      · exact find?_cons.trans (if_neg hn)
      · rfl

end ServerWarden.NameMap
