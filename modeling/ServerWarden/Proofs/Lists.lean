/-
# Lists that grow, and lists of pairs

A history grows at its end: what stands in it is its last entry, or stood in it before.

In a list of pairs, what is found under a key is a pair of the list, and each pair is found if no key
comes twice.  Taking out the pairs of one key leaves what is found under the others.
-/
import Mathlib.Data.List.Nodup

namespace ServerWarden

/-- A place in a history with one more entry: it is the last, or a place of the history. -/
theorem cut_of_concat {α : Type*} {before after history : List α} {x last : α}
    (h : before ++ x :: after = history ++ [last]) :
    (before = history ∧ x = last ∧ after = []) ∨
      ∃ rest, after = rest ++ [last] ∧ before ++ x :: rest = history := by
  rcases List.eq_nil_or_concat after with rfl | ⟨rest, y, rfl⟩
  · obtain ⟨hhistory, hlast⟩ := List.append_inj' h rfl
    exact .inl ⟨hhistory, List.singleton_inj.mp hlast, rfl⟩
  · rw [List.concat_eq_append, ← List.cons_append, ← List.append_assoc] at h
    obtain ⟨hhistory, hlast⟩ := List.append_inj' h rfl
    refine .inr ⟨rest, ?_, hhistory⟩
    rw [List.concat_eq_append, hlast]

/-! Looking up in a list of pairs. -/

variable {κ β : Type} [BEq κ] [LawfulBEq κ] {l : List (κ × β)} {k k' : κ} {v : β}

theorem lookup_eq_some_of_mem (hl : (l.map Prod.fst).Nodup) (h : (k, v) ∈ l) :
    l.lookup k = some v := by
  induction l with
  | nil => exact nomatch h
  | cons a l ih =>
    obtain ⟨hnot, hl⟩ := List.nodup_cons.mp hl
    rcases List.mem_cons.mp h with rfl | h
    · exact List.lookup_cons_self
    · have hne : (k == a.1) = false := by
        refine beq_eq_false_iff_ne.mpr ?_
        rintro rfl
        exact hnot (List.mem_map.mpr ⟨_, h, rfl⟩)
      rw [List.lookup_cons, hne]
      exact ih hl h

theorem mem_of_lookup_eq_some (h : l.lookup k = some v) : (k, v) ∈ l := by
  obtain ⟨a, b, rfl, -⟩ := List.lookup_eq_some_iff.mp h
  exact List.mem_append_right a List.mem_cons_self

theorem lookup_filter_self : (l.filter (·.1 != k)).lookup k = none := by
  refine List.lookup_eq_none_iff.mpr ?_
  intro a ha
  have hne : a.1 ≠ k := by simpa using (List.mem_filter.mp ha).2
  simpa using hne.symm

theorem lookup_filter_ne (h : k ≠ k') : (l.filter (·.1 != k')).lookup k = l.lookup k := by
  induction l with
  | nil => rfl
  | cons a l ih =>
    rw [List.lookup_cons]
    by_cases ha : a.1 = k'
    · have hk : (k == a.1) = false := beq_eq_false_iff_ne.mpr (ha ▸ h)
      rw [List.filter_cons_of_neg (by simpa using ha), ih, hk]
    · rw [List.filter_cons_of_pos (by simpa using ha), List.lookup_cons, ih]

end ServerWarden
