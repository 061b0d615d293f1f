/-
# Comparing an installed framework with its release

A newer framework is there if the version that a probe of the assembly prints differs from the
version in the name of the latest release.  The two are brought into one form in two places: the
name loses what stands before the version (`Release.version`), the probe's version is cut to three
components (`Framework.probedVersion?`).

So they agree on one version exactly if it has three components (`probed_eq_released_iff`).  A
release that is named with a fourth component is never found to be installed: the check that follows
its install still reports a newer version.
-/
import ServerWarden.Updater

namespace ServerWarden

/-! ## 1. Dotted versions -/

/-- A version of at least three components, each with a text of its own: no dots, no blanks. -/
structure DottedVersion where
  components : List (List Char)
  three_le : 3 ≤ components.length
  plain : ∀ part ∈ components, part ≠ [] ∧ ∀ c ∈ part, c ≠ '.' ∧ Text.isBlank c = false

namespace DottedVersion

/-- Components with a dot between two of them. -/
def join (components : List (List Char)) : List Char := ['.'].intercalate components

def chars (v : DottedVersion) : List Char := join v.components

def text (v : DottedVersion) : String := String.ofList v.chars

variable {parts : List (List Char)}

theorem join_cons_cons (part part' : List Char) :
    join (part :: part' :: parts) = part ++ '.' :: join (part' :: parts) := by
  simp [join, List.intercalate_cons_cons]

/-- Components are read back from the dotted text. -/
theorem splitOn_join (hne : parts ≠ []) (hdot : ∀ part ∈ parts, '.' ∉ part) :
    (join parts).splitOn '.' = parts := List.splitOn_intercalate '.' hdot hne

theorem mem_join {c : Char} (h : c ∈ join parts) : c = '.' ∨ ∃ part ∈ parts, c ∈ part := by
  induction parts with
  | nil => simp [join, List.intercalate] at h
  | cons part parts ih =>
    cases parts with
    | nil => exact Or.inr ⟨part, List.mem_cons_self, by simpa [join] using h⟩
    | cons part' parts =>
      rw [join_cons_cons, List.mem_append, List.mem_cons] at h
      rcases h with h | rfl | h
      · exact Or.inr ⟨part, List.mem_cons_self, h⟩
      · exact Or.inl rfl
      · rcases ih h with rfl | ⟨p, hp, hc⟩
        · exact Or.inl rfl
        · exact Or.inr ⟨p, List.mem_cons_of_mem _ hp, hc⟩

variable (v : DottedVersion)

theorem components_ne_nil : v.components ≠ [] := by
  intro h
  have h3 := v.three_le
  rw [h] at h3
  exact absurd h3 (by decide)

theorem dot_notMem : ∀ part ∈ v.components, '.' ∉ part :=
  fun part hp hc => ((v.plain part hp).2 '.' hc).1 rfl

theorem chars_ne_nil : v.chars ≠ [] := by
  intro h
  have hs := splitOn_join v.components_ne_nil v.dot_notMem
  rw [show join v.components = [] from h] at hs
  have h3 := v.three_le
  rw [← hs] at h3
  exact absurd h3 (by decide)

theorem isBlank_chars : ∀ c ∈ v.chars, Text.isBlank c = false := by
  intro c hc
  rcases mem_join hc with rfl | ⟨part, hp, hc⟩
  · decide
  · exact ((v.plain part hp).2 c hc).2

end DottedVersion

/-! ## 2. Reading a probe -/

namespace Text

/-- Blanks around a word that has none are dropped. -/
theorem trimChars_around {before word after : List Char} (hb : ∀ c ∈ before, isBlank c = true)
    (hw : ∀ c ∈ word, isBlank c = false) (hne : word ≠ [])
    (ha : ∀ c ∈ after, isBlank c = true) : trimChars (before ++ word ++ after) = word := by
  have drop_left : ∀ {blanks rest : List Char}, (∀ c ∈ blanks, isBlank c = true) →
      (∀ c ∈ rest.head?, isBlank c = false) → (blanks ++ rest).dropWhile isBlank = rest := by
    intro blanks rest hbl hr
    rw [List.dropWhile_append_of_pos hbl]
    cases rest with
    | nil => rfl
    | cons c rest => simp [hr c rfl]
  have hhead : ∀ c ∈ (word ++ after).head?, isBlank c = false := by
    cases word with
    | nil => exact absurd rfl hne
    | cons c word => simpa using hw c List.mem_cons_self
  have hlast : ∀ c ∈ word.reverse.head?, isBlank c = false := by
    intro c hc
    exact hw c (List.mem_reverse.mp (List.mem_of_head? hc))
  rw [trimChars, dropWhileEnd, List.append_assoc, drop_left hb hhead, List.reverse_append,
    drop_left (by simpa using ha) hlast, List.reverse_reverse]

end Text

namespace Framework

theorem firstComponents_append {part rest : List Char} (count : Nat) (hdot : '.' ∉ part) :
    firstComponents (count + 1) (part ++ rest) = part ++ firstComponents (count + 1) rest := by
  induction part with
  | nil => rfl
  | cons c part ih =>
    rw [List.mem_cons, not_or] at hdot
    simp [firstComponents, Ne.symm hdot.1, ih hdot.2]

/-- **Cutting a version keeps its first components.** -/
theorem firstComponents_join (count : Nat) {parts : List (List Char)}
    (hdot : ∀ part ∈ parts, '.' ∉ part) :
    firstComponents (count + 1) (DottedVersion.join parts)
      = DottedVersion.join (parts.take (count + 1)) := by
  induction parts generalizing count with
  | nil => rfl
  | cons part parts ih =>
    obtain ⟨hp, hps⟩ := List.forall_mem_cons.mp hdot
    cases parts with
    | nil =>
      have h : firstComponents (count + 1) (part ++ []) = part ++ firstComponents (count + 1) [] :=
        firstComponents_append count hp
      simpa [DottedVersion.join, firstComponents] using h
    | cons part' parts =>
      rw [DottedVersion.join_cons_cons, firstComponents_append count hp]
      cases count with
      | zero => simp [firstComponents, DottedVersion.join]
      | succ count =>
        rw [List.take_succ_cons, List.take_succ_cons, DottedVersion.join_cons_cons,
          ← List.take_succ_cons, ← ih count hps]
        simp [firstComponents]

/-- A probe's output whose first version line shows `v`, with any blanks around it. -/
def Shows (output : String) (v : DottedVersion) : Prop :=
  ∃ before after : List Char, (∀ c ∈ before, Text.isBlank c = true) ∧
    (∀ c ∈ after, Text.isBlank c = true) ∧
    (Text.lineChars output.toList).find? versionMark.isPrefixOf
      = some (versionMark ++ (before ++ v.chars ++ after))

/-- A probe that shows a version is read as its first three components. -/
theorem Shows.probedVersion? {output : String} {v : DottedVersion} (h : Shows output v) :
    probedVersion? output = some (String.ofList (DottedVersion.join (v.components.take 3))) := by
  obtain ⟨before, after, hb, ha, hline⟩ := h
  have htrim : Text.trimChars (before ++ v.chars ++ after) = v.chars :=
    Text.trimChars_around hb v.isBlank_chars v.chars_ne_nil ha
  have hfirst : firstComponents componentCount v.chars
      = DottedVersion.join (v.components.take 3) := firstComponents_join 2 v.dot_notMem
  have hdrop : (versionMark ++ (before ++ v.chars ++ after)).drop versionMark.length
      = before ++ v.chars ++ after := List.drop_left
  have hne : v.chars.isEmpty = false := by simpa using v.chars_ne_nil
  simp only [Framework.probedVersion?, hline, Option.bind_eq_bind, Option.bind_some, hdrop, htrim,
    hne, Bool.false_eq_true, if_false, hfirst]

/-! ## 3. The name of a release -/

/-- The name that a framework gives to the release of a version. -/
def releaseName (kind : Framework) (version : String) : String :=
  if kind = .carbon then Release.carbonPrefix ++ version else version

end Framework

theorem Release.version_of_name {kind : Framework} {version : String} {r : Release}
    (hk : kind ≠ .none) (hr : r.name = kind.releaseName version) :
    r.version kind = pure (some version) := by
  cases kind with
  | none => exact absurd rfl hk
  | carbon =>
    have hname : r.name.toList = carbonPrefix.toList ++ version.toList := by
      simp [hr, Framework.releaseName, String.toList_append]
    have hlen : carbonPrefix.toList.length = carbonPrefix.length := String.length_toList
    simp [Release.version, hname, ← hlen]
  | oxide => simp [Release.version, hr, Framework.releaseName]

/-! ## 4. The comparison -/

namespace DottedVersion

/-- Cutting a version to three components changes it exactly if it has more. -/
theorem join_take_eq_iff (v : DottedVersion) :
    join (v.components.take 3) = v.chars ↔ v.components.length = 3 := by
  constructor
  · intro h
    have hne : v.components.take 3 ≠ [] := by simp [v.components_ne_nil]
    have htake : v.components.take 3 = v.components := by
      rw [← splitOn_join hne fun part hp => v.dot_notMem part (List.mem_of_mem_take hp), h]
      exact splitOn_join v.components_ne_nil v.dot_notMem
    have hle : v.components.length ≤ 3 := by
      rw [← htake]
      exact List.length_take_le 3 _
    exact Nat.le_antisymm hle v.three_le
  · intro h
    rw [List.take_of_length_le (Nat.le_of_eq h)]
    rfl

end DottedVersion

/-- **A probe and a release name agree on a version exactly if it has three components.** -/
theorem Framework.Shows.probed_eq_released_iff {kind : Framework} {r : Release} {output : String}
    {v : DottedVersion} (ho : Shows output v) (hk : kind ≠ .none)
    (hr : r.name = kind.releaseName v.text) :
    Framework.probedVersion? output = (r.version kind).value ↔ v.components.length = 3 := by
  rw [ho.probedVersion?, Release.version_of_name hk hr, Logged.value_pure, Option.some_inj,
    DottedVersion.text, String.ofList_inj, v.join_take_eq_iff]

/-! ## 5. The check after an install -/

instance : LawfulMonad Logged := LawfulMonad.mk' Logged
  (fun x => by cases x; simp [Functor.map])
  (fun _ _ => by simp [bind, pure])
  (fun x f g => by simp [bind, List.append_assoc])

namespace Attempt

theorem run_get (files : FileTree) :
    (get : Attempt FileTree).run.run files = pure (.ok files, files) := rfl

theorem run_runProgram {m : Machine} {files : FileTree} {program : String} {args : List String}
    {finished : Finished} (fault : SystemError → Fault)
    (h : m.run files program args = .ok finished) :
    (runProgram m program args fault).run.run files = pure (.ok finished, finished.files) := by
  simp [runProgram, ExceptT.run_bind, run_get, h]
  rfl

end Attempt

namespace Updater

variable {u : Updater} {m : Machine} {files : FileTree} {v : DottedVersion}

theorem run_installedVersion {assembly : String} {finished : Finished}
    (hhas : files.has assembly = true)
    (hrun : m.run files Framework.probeName ["--assembly", assembly] = .ok finished)
    (hok : finished.status.isSuccess = true) :
    (Framework.installedVersion m assembly).run.run files
      = pure (.ok (Framework.probedVersion? (Text.Utf8.decodeLossy finished.output)),
          finished.files) := by
  simp [Framework.installedVersion, ExceptT.run_bind, Attempt.run_get,
    Attempt.run_runProgram _ hrun, hhas, hok]

theorem run_latestRelease {url : String} {page : Page} {r : Release}
    (hurl : u.framework.releaseUrl? = some url) (hfetch : m.fetch url = some page)
    (hstatus : page.status = Http.okStatus)
    (hread : Release.read? (Text.Utf8.decodeLossy page.body) = some r) :
    (u.latestRelease m).run.run files = pure (.ok r, files) := by
  simp [latestRelease, hurl, Http.getText, Http.body, hfetch, hstatus, hread]

theorem run_orSay {α : Type} {attempt : Attempt (Option α)} {files' : FileTree} {a : Option α}
    (what : String) (h : attempt.run.run files = pure (.ok a, files')) :
    (orSay attempt what).run files = pure (a, files') := by
  simp [orSay, h]

/-- The latest release is installed: the page of the latest release names a version, and the probe
of the assembly shows that version. -/
structure UpToDate (u : Updater) (m : Machine) (files : FileTree) (v : DottedVersion) : Prop where
  probe : ∃ assembly finished, u.framework.assemblyPath? u.installPath = some assembly ∧
    files.has assembly = true ∧
    m.run files Framework.probeName ["--assembly", assembly] = .ok finished ∧
    finished.status.isSuccess = true ∧
    Framework.Shows (Text.Utf8.decodeLossy finished.output) v
  latest : ∃ url page r, u.framework.releaseUrl? = some url ∧ m.fetch url = some page ∧
    page.status = Http.okStatus ∧
    Release.read? (Text.Utf8.decodeLossy page.body) = some r ∧
    r.name = u.framework.releaseName v.text

/-- **A check after an install** finds nothing newer exactly if the version has three components.
A release that is named with a fourth is never found to be installed. -/
theorem checkFramework_after_install (h : u.UpToDate m files v) :
    ((u.checkFramework m).run files).value.1 = decide (v.components.length ≠ 3) := by
  obtain ⟨assembly, finished, hpath, hhas, hrun, hok, hshows⟩ := h.probe
  obtain ⟨url, page, r, hurl, hfetch, hstatus, hread, hname⟩ := h.latest
  have hk : u.framework ≠ .none := by
    intro hk
    rw [hk] at hurl
    exact nomatch hurl
  have hiff := hshows.probed_eq_released_iff hk hname
  rw [hshows.probedVersion?, Release.version_of_name hk hname, Logged.value_pure,
    Option.some_inj] at hiff
  have hinstalled := run_installedVersion hhas hrun hok
  rw [hshows.probedVersion?] at hinstalled
  have hrelease : (u.latestRelease m).run.run finished.files = pure (.ok r, finished.files) :=
    run_latestRelease hurl hfetch hstatus hread
  have hlatest : (do
      let release ← u.latestRelease m
      ExceptT.lift (StateT.lift (release.version u.framework)) : Attempt (Option String)).run.run
        finished.files = pure (.ok (some v.text), finished.files) := by
    simp [ExceptT.run_bind, hrelease, Release.version_of_name hk hname]
  -- what the check says in the log has no part in its answer
  have hdiffer : ((u.checkFramework m).run files).value.1
      = differ (some (String.ofList (DottedVersion.join (v.components.take 3)))) (some v.text) := by
    simp only [checkFramework, hpath, StateT.run_bind, run_orSay _ hinstalled,
      run_orSay _ hlatest, info, Work.say, StateT.run_lift, StateT.run_pure, pure_bind,
      Logged.value_bind, Logged.value_pure, Logged.say]
  rw [hdiffer, Bool.eq_iff_iff]
  simp [differ, hiff]

/-- A version with as many components as the names of Carbon releases have. -/
def carbonVersion : DottedVersion where
  components := [['1'], ['2', '0', '2', '4'], ['1', '0', '3', '3'], ['4', '3', '0', '9']]
  three_le := by decide
  plain := by simp [Text.isBlank]

/-- What a probe prints of an assembly of that version. -/
def carbonOutput : String :=
  "Assembly Table\nName:          Carbon\nVersion:       1.2024.1033.4309\n"

theorem shows_carbonVersion : Framework.Shows carbonOutput carbonVersion := by
  refine ⟨List.replicate 7 ' ', [], ?_, nofun, by decide +kernel⟩
  intro c hc
  rw [List.eq_of_mem_replicate hc]
  decide

/-- **A version that is not comparable**: the name of its Carbon release and the probe of its
assembly are read as two versions. -/
theorem four_components_differ :
    ∃ (v : DottedVersion) (r : Release) (output : String),
      Framework.Shows output v ∧ r.name = Framework.carbon.releaseName v.text ∧
      Framework.probedVersion? output = some "1.2024.1033" ∧
      (r.version .carbon).value = some "1.2024.1033.4309" :=
  ⟨carbonVersion, ⟨"Production Build — v1.2024.1033.4309", []⟩, carbonOutput, shows_carbonVersion,
    by decide +kernel, by decide +kernel, by decide +kernel⟩

/-- A system on which every program prints the probe's output, and every page describes the release
of that version. -/
def carbonMachine : Machine where
  run files _ _ := .ok ⟨.exited 0, Text.Utf8.encode carbonOutput, files⟩
  fetch _ := some ⟨Http.okStatus, Text.Utf8.encode
    "\x7b\"name\": \"Production Build — v1.2024.1033.4309\"\x7d"⟩

/-- An install that has its assembly. -/
def carbonFiles : FileTree where
  nodes := [(["srv"], .directory), (["srv", "carbon"], .directory),
    (["srv", "carbon", "managed"], .directory),
    (["srv", "carbon", "managed", "Carbon.dll"], .file [] false)]
  workingDir := []

def carbonUpdater : Updater := ⟨"/srv", "/tmp", .carbon, ⟨none, "/srv", "/tmp"⟩⟩

/-- The latest release is installed, and the check still finds something newer. -/
theorem checkFramework_reports_installed :
    carbonUpdater.UpToDate carbonMachine carbonFiles carbonVersion ∧
    ((carbonUpdater.checkFramework carbonMachine).run carbonFiles).value.1 = true := by
  have h : carbonUpdater.UpToDate carbonMachine carbonFiles carbonVersion := {
    probe := by
      refine ⟨"/srv/carbon/managed/Carbon.dll", ⟨.exited 0, Text.Utf8.encode carbonOutput,
        carbonFiles⟩, by decide +kernel, by decide +kernel, rfl, rfl, ?_⟩
      have hdecode : Text.Utf8.decodeLossy (Text.Utf8.encode carbonOutput) = carbonOutput := by
        decide +kernel
      rw [hdecode]
      exact shows_carbonVersion
    latest := by
      refine ⟨_, _, ⟨"Production Build — v1.2024.1033.4309", []⟩, rfl, rfl, rfl, ?_, ?_⟩
      · decide +kernel
      · decide +kernel }
  exact ⟨h, (checkFramework_after_install h).trans (by decide)⟩

end Updater
end ServerWarden
