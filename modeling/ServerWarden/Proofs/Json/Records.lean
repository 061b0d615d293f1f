/-
# Objects as records

The members of an object may come in any order, and those without a known name are passed over
(`fieldsOf?_eq`).  What is asked for by name is then found wherever it stands (`lookup_of_mem`),
whatever the other members hold, as long as no known name comes twice.

Every member that follows the grammar is read, so there is a function from members to what is read
of their values (`exists_values`).  The record of an object is that function on its known members.
-/
import ServerWarden.Json.Record
import ServerWarden.Proofs.Json.Completeness
import ServerWarden.Proofs.Lists

namespace ServerWarden.Json

section

variable {names : List String} {ms : List (String × List Char)} {m : String × List Char}
  {name : String} {cs : List Char} {v v' : Json} {value : String × List Char → Json}

theorem ReadsAs.alone (h : ReadsAs cs v) : value? cs.length (cs ++ []) = some (v, []) :=
  h.value (Nat.le_refl _) (by simp [Follows])

/-- A text is read in one way. -/
theorem ReadsAs.unique (h : ReadsAs cs v) (h' : ReadsAs cs v') : v = v' :=
  (Prod.mk.inj (Option.some.inj (h.alone.symm.trans h'.alone))).1

theorem exists_values (h : ∀ m ∈ ms, ∃ v, ReadsAs m.2 v) :
    ∃ value : String × List Char → Json, ∀ m ∈ ms, ReadsAs m.2 (value m) := by
  classical
  choose! value hvalue using h
  exact ⟨value, hvalue⟩

/-- **An object is read member by member.** -/
theorem Members.membersAs (h : Members ms cs) (hvalue : ∀ m ∈ ms, ReadsAs m.2 (value m)) :
    MembersAs cs (ms.map fun m => (some m.1, value m)) := by
  induction h with
  | one hname hm =>
    have := hm.last hname.namedAs (hvalue _ List.mem_cons_self)
    rwa [String.ofList_toList] at this
  | cons hname hm _ ih =>
    have := (ih fun m hm => hvalue m (List.mem_cons_of_mem _ hm)).cons hm hname.namedAs
      (hvalue _ List.mem_cons_self)
    rwa [String.ofList_toList] at this

theorem lookup_of_mem (hm : m ∈ ms) (hnodup : (ms.map Prod.fst).Nodup) :
    (ms.map fun m => (m.1, value m)).lookup m.1 = some (value m) := by
  refine lookup_eq_some_of_mem ?_ (List.mem_map_of_mem hm)
  rwa [List.map_map]

theorem lookup_of_not_mem (h : name ∉ ms.map Prod.fst) :
    (ms.map fun m => (m.1, value m)).lookup name = none := by
  rw [List.lookup_eq_none_iff]
  intro p hp
  obtain ⟨m, hm, rfl⟩ := List.mem_map.mp hp
  have hne : ¬ name = m.1 := fun hname => h (hname ▸ List.mem_map_of_mem hm)
  simpa using hne

theorem required_of_mem {α : Type} (hm : m ∈ ms) (hnodup : (ms.map Prod.fst).Nodup)
    (read : Json → Option α) :
    Record.required (ms.map fun m => (m.1, value m)) m.1 read = read (value m) := by
  rw [Record.required, lookup_of_mem hm hnodup, Option.bind_some]

theorem optional_of_mem {α : Type} (hm : m ∈ ms) (hnodup : (ms.map Prod.fst).Nodup)
    (read : Json → Option α) (default : α) :
    Record.optional (ms.map fun m => (m.1, value m)) m.1 read default = read (value m) := by
  rw [Record.optional, lookup_of_mem hm hnodup]

theorem optional_of_not_mem {α : Type} (h : name ∉ ms.map Prod.fst) (read : Json → Option α)
    (default : α) :
    Record.optional (ms.map fun m => (m.1, value m)) name read default = some default := by
  rw [Record.optional, lookup_of_not_mem h]

/-- **The fields of a record are the members with a known name**, if no such name comes twice. -/
theorem fieldsOf?_eq (hnodup : ((ms.filter fun m => names.contains m.1).map Prod.fst).Nodup) :
    fieldsOf? names (ms.map fun m => (some m.1, value m))
      = some ((ms.filter fun m => names.contains m.1).map fun m => (m.1, value m)) := by
  induction ms with
  | nil => rfl
  | cons m ms ih =>
    rw [List.map_cons, fieldsOf?, List.filter_cons]
    rw [List.filter_cons] at hnodup
    cases hm : names.contains m.1 with
    | true =>
      simp only [hm, if_true, List.map_cons, List.nodup_cons] at hnodup
      rw [ih hnodup.2]
      simp only [Option.bind_eq_bind, Option.bind_some, lookup_of_not_mem hnodup.1]
      rfl
    | false =>
      simp only [hm, Bool.false_eq_true, if_false] at hnodup
      rw [ih hnodup]
      rfl

end

end ServerWarden.Json
