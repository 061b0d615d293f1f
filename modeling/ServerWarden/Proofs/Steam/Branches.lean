/-
# The latest build of a branch

The builds of all branches stand in one tree, under keys that lead from the application to its
branches, and from a branch to its build.  The look-up joins these keys with points between them,
the name of the branch among them, and takes the path apart again at the points.

So a name without a point is one key, and its build is found wherever it stands in the tree.  A name
with a point becomes more than one key: the look-up leads into a branch of another name, and the
entry of the branch itself is never seen.  `branch_found_iff` says both.
-/
import ServerWarden.Proofs.KeyValues.Acceptance
import ServerWarden.Steam.AppInfo

namespace ServerWarden

namespace KeyValues

/-! ## 1. First entries -/

/-- `First tree key value`: the first entry of a key holds a value.  ASCII capitals and small
letters of keys are not told apart. -/
inductive First (key : String) : KeyValues → KeyValue → Prop where
  | here {name : String} {value : KeyValue} {rest : KeyValues} :
      sameKey name key = true → First key ((name, value) :: rest) value
  | later {name : String} {value other : KeyValue} {rest : KeyValues} :
      sameKey name key = false → First key rest value → First key ((name, other) :: rest) value

/-- There is no entry of a key. -/
def Lacks (tree : KeyValues) (key : String) : Prop := ∀ entry ∈ tree, sameKey entry.1 key = false

section

variable {tree below : KeyValues} {key : String} {value : KeyValue} {path : List String}

theorem get?_eq_some_of_first (h : First key tree value) : get? tree key = some value := by
  induction h with
  | here hsame => simp [get?, hsame]
  | later hother _ ih =>
    rw [get?, List.find?_cons_of_neg (by simp [hother])]
    exact ih

theorem get?_eq_none_of_lacks (h : Lacks tree key) : get? tree key = none := by
  rw [get?, Option.map_eq_none_iff, List.find?_eq_none]
  intro entry hentry
  simp [h entry hentry]

theorem textAt?_of_text {text : String} (h : First key tree (.text text)) :
    textAt? tree [key] = some text := by
  rw [textAt?, get?_eq_some_of_first h]

theorem textAt?_of_block (h : First key tree (.block below)) (hpath : path ≠ []) :
    textAt? tree (key :: path) = textAt? below path := by
  cases path with
  | nil => exact absurd rfl hpath
  | cons next path => rw [textAt?, get?_eq_some_of_first h]; exact nofun

theorem textAt?_of_lacks (h : Lacks tree key) (path : List String) :
    textAt? tree (key :: path) = none := by
  cases path with
  | nil => rw [textAt?, get?_eq_none_of_lacks h]
  | cons next path => rw [textAt?, get?_eq_none_of_lacks h]; exact nofun

end

/-- Every tree is read from some text. -/
theorem exists_text (tree : KeyValues) : ∃ text, parse text = .ok tree := by
  obtain ⟨cs, hcs⟩ := exists_written (signs tree)
  obtain ⟨ts, hts, hsigns⟩ := hcs.tokensFrom 1
  refine ⟨String.ofList cs, parse_of_tokens ?_ hsigns⟩
  rwa [String.toList_ofList]

end KeyValues

namespace Steam

open KeyValues

/-! ## 2. The path of a branch -/

/-- What is between the points of a name. -/
def pieces (name : String) : List String := (name.toList.splitOn '.').map String.ofList

theorem pieces_of_no_point {name : String} (h : '.' ∉ name.toList) : pieces name = [name] := by
  rw [pieces, List.splitOn_eq_singleton h, List.map_singleton, String.ofList_toList]

/-- The first piece of a name with a point is shorter than the name. -/
theorem pieces_of_point {name : String} (h : '.' ∈ name.toList) :
    ∃ first others, pieces name = first :: others ∧ first.toList.length < name.toList.length := by
  obtain ⟨before, behind, hname, hbefore⟩ := List.eq_append_cons_of_mem h
  refine ⟨String.ofList before, (behind.splitOn '.').map String.ofList, ?_, ?_⟩
  · rw [pieces, hname, List.splitOn_append_cons_self, List.splitOn_eq_singleton hbefore]
    rfl
  · rw [hname, String.toList_ofList, List.length_append, List.length_cons]
    omega

/-- The path of a branch leads from the application to its branches, then along the pieces of the
name, and then to the build. -/
theorem latestBuild_of_parse {text branch : String} {tree : KeyValues}
    (h : parse text = .ok tree) : latestBuild text (some branch)
      = .ok (textAt? tree (appId :: "depots" :: "branches" :: (pieces branch ++ ["buildid"]))) := by
  have hpath : s!"{appId}.depots.branches.{branch}.buildid".toList
      = appId.toList ++ '.' :: ("depots".toList ++ '.' :: ("branches".toList ++ '.' ::
          (branch.toList ++ '.' :: "buildid".toList))) := by
    simp [toString, appId]
  have hkeys : (s!"{appId}.depots.branches.{branch}.buildid".toList.splitOn '.').map String.ofList
      = appId :: "depots" :: "branches" :: (pieces branch ++ ["buildid"]) := by
    rw [hpath]
    simp only [List.splitOn_append_cons_self, List.map_append]
    show pieces appId ++ (pieces "depots" ++ (pieces "branches" ++ (pieces branch ++
      pieces "buildid"))) = _
    have plain : pieces appId = [appId] ∧ pieces "depots" = ["depots"] ∧
        pieces "branches" = ["branches"] ∧ pieces "buildid" = ["buildid"] := by
      refine ⟨?_, ?_, ?_, ?_⟩ <;> exact pieces_of_no_point (by decide +kernel)
    rw [plain.1, plain.2.1, plain.2.2.1, plain.2.2.2]
    rfl
  rw [latestBuild, h]
  exact congrArg (fun keys => Except.ok (textAt? tree keys)) hkeys

/-- A text in which the application lists its branches. -/
def Lists (text : String) (branches : KeyValues) : Prop :=
  ∃ tree app depots, parse text = .ok tree ∧ First appId tree (.block app) ∧
    First "depots" app (.block depots) ∧ First "branches" depots (.block branches)

/-- **The look-up goes on from the branches along the pieces of the name.** -/
theorem latestBuild_of_lists {text : String} {branches : KeyValues} (h : Lists text branches)
    (branch : String) :
    latestBuild text (some branch) = .ok (textAt? branches (pieces branch ++ ["buildid"])) := by
  obtain ⟨tree, app, depots, hparse, happ, hdepots, hbranches⟩ := h
  rw [latestBuild_of_parse hparse, textAt?_of_block happ (by simp),
    textAt?_of_block hdepots (by simp), textAt?_of_block hbranches (by simp)]

/-! ## 3. Which branches are found -/

/-- The build of a branch is found wherever the application lists its branches: it is the one that
the first entry of the branch names first, and there is none if the branch has no entry. -/
def IsFound (branch : String) : Prop :=
  ∀ text branches, Lists text branches →
    (∀ own build, First branch branches (.block own) → First "buildid" own (.text build) →
      latestBuild text (some branch) = .ok (some build)) ∧
    (Lacks branches branch → latestBuild text (some branch) = .ok none)

variable {branch : String}

theorem isFound_of_no_point (h : '.' ∉ branch.toList) : IsFound branch := by
  intro text branches hlists
  have hlook := latestBuild_of_lists hlists branch
  rw [pieces_of_no_point h, List.singleton_append] at hlook
  refine ⟨fun own build hown hbuild => ?_, fun hlacks => ?_⟩
  · rw [hlook, textAt?_of_block hown (by simp), textAt?_of_text hbuild]
  · rw [hlook, textAt?_of_lacks hlacks]

/-- A branch by itself, with a build. -/
def loneBranch (branch : String) : KeyValues :=
  [(branch, .block [("buildid", .text "1")])]

theorem exists_lists (branches : KeyValues) : ∃ text, Lists text branches := by
  obtain ⟨text, htext⟩ := exists_text
    [(appId, .block [("depots", .block [("branches", .block branches)])])]
  exact ⟨text, _, _, _, htext, .here (by decide +kernel), .here (by decide +kernel),
    .here (by decide +kernel)⟩

theorem sameKey_refl (key : String) : sameKey key key = true := by simp [sameKey]

/-- Keys of different lengths are not the same. -/
theorem sameKey_of_length_ne {key key' : String} (h : key.toList.length ≠ key'.toList.length) :
    sameKey key key' = false := by
  refine beq_eq_false_iff_ne.mpr fun heq => h ?_
  simpa using congrArg List.length heq

/-- A branch whose name has a point is not found where it is the only one. -/
theorem no_point_of_isFound (h : IsFound branch) : '.' ∉ branch.toList := by
  intro hpoint
  obtain ⟨text, hlists⟩ := exists_lists (loneBranch branch)
  have hclaimed := (h text _ hlists).1 _ "1" (.here (sameKey_refl branch))
    (.here (by decide +kernel))
  obtain ⟨first, others, hpieces, hshorter⟩ := pieces_of_point hpoint
  have hlacks : Lacks (loneBranch branch) first := by
    intro entry hentry
    obtain rfl := List.mem_singleton.mp hentry
    exact sameKey_of_length_ne (Nat.ne_of_gt hshorter)
  rw [latestBuild_of_lists hlists, hpieces, List.cons_append, textAt?_of_lacks hlacks] at hclaimed
  exact absurd hclaimed (by simp)

/-- **The build of a branch is found exactly if its name has no point.**  For every name the look-up
goes on from the branches along the pieces between the points. -/
theorem branch_found_iff (branch : String) :
    (IsFound branch ↔ '.' ∉ branch.toList) ∧
    ∀ text branches, Lists text branches → latestBuild text (some branch)
      = .ok (textAt? branches (pieces branch ++ ["buildid"])) :=
  ⟨⟨no_point_of_isFound, isFound_of_no_point⟩, fun _ _ h => latestBuild_of_lists h branch⟩

/-- An application with one branch, whose name has a point. -/
def pointedText : String :=
  "258550\x7bdepots\x7bbranches\x7b\"v1.2\"\x7bbuildid 5\x7d\x7d\x7d\x7d"

/-- The first entry of the branch names its build, and the look-up finds none. -/
theorem pointed_branch_missed :
    (∃ branches own, Lists pointedText branches ∧ First "v1.2" branches (.block own) ∧
      First "buildid" own (.text "5")) ∧
    latestBuild pointedText (some "v1.2") = .ok none ∧ ¬ IsFound "v1.2" := by
  have hparse : parse pointedText = .ok [(appId, .block [("depots", .block [("branches",
      .block [("v1.2", .block [("buildid", .text "5")])])])])] := by
    have hts : tokens pointedText.toList = .ok [.word appId.toList 1, .openBlock 1,
        .word "depots".toList 1, .openBlock 1, .word "branches".toList 1, .openBlock 1,
        .word "v1.2".toList 1, .openBlock 1, .word "buildid".toList 1, .word ['5'] 1,
        .closeBlock 1, .closeBlock 1, .closeBlock 1, .closeBlock 1] := by decide +kernel
    exact parse_of_tokens hts (by decide +kernel)
  have hlists : Lists pointedText [("v1.2", .block [("buildid", .text "5")])] :=
    ⟨_, _, _, hparse, .here (by decide +kernel), .here (by decide +kernel),
      .here (by decide +kernel)⟩
  have hmissed : textAt? [("v1.2", .block [("buildid", .text "5")])]
      (pieces "v1.2" ++ ["buildid"]) = none := by decide +kernel
  refine ⟨⟨_, _, hlists, .here (by decide +kernel), .here (by decide +kernel)⟩, ?_, fun h => ?_⟩
  · rw [latestBuild_of_lists hlists, hmissed]
  · exact no_point_of_isFound h (by decide +kernel)

end Steam
end ServerWarden
