/-
# No parameter is lost, unless a later one has its name

Every leaf below the tables of launch parameters stands on the command line with its value (`Kept`),
or the log names it: while the file is read, if no parameter can have its value, and while the
command line is built, if the parameter is managed (`Reported`).  There is one exception.  A nested
parameter and a quoted one may have the same name, and of several leaves of one name the last one
counts.  The others leave no trace (`Overwritten`), and nothing is said of them.

That is the only exception: what is not overwritten is accounted for
(`accounted_of_not_overwritten`), and what is overwritten is not (`not_accounted_of_overwritten`).
A configuration in which it happens is `collidingText`, with two spellings of one port.
-/
import ServerWarden.Proofs.Launch.Managed

namespace ServerWarden

open Toml (Value)
open LaunchSpec

namespace Config

/-! ## 1. What becomes of a leaf -/

/-- The two tables of launch parameters. -/
inductive Side where
  | minus | plus
  deriving DecidableEq, Repr

def Side.mark : Side → String
  | .minus => "-"
  | .plus => "+"

def Side.entries (d : Document) : Side → List (String × Value)
  | .minus => d.launch.minus
  | .plus => d.launch.plus

def Side.params (c : Config) : Side → LaunchParams
  | .minus => c.launchMinus
  | .plus => c.launchPlus

/-- The leaves of a side with their names, in the order in which they are met. -/
def Side.leaves (s : Side) (d : Document) : List (String × Value) :=
  Config.leaves s.mark (s.entries d)

/-- What a leaf means on the command line: its name alone for a flag, or its name and its text. -/
def parameter? (name : String) (value : Value) : Option Parameter :=
  (launchValue? value).bind fun v => given? (name, v)

/-- A leaf stands on the command line with its value. -/
def Kept (c : Config) (draw : Int) (name : String) (value : Value) : Prop :=
  ∃ p, parameter? name value = some p ∧ p ∈ parameters c draw

/-- What is said while a configuration is read and while its command line is built. -/
def said (host : Host) (text : String) (c : Config) (draw : Int) : List Log.Line :=
  (ofText host text).log ++ (ofConfig c draw).log

/-- The log says that a parameter is ignored. -/
def Reported (log : List Log.Line) (name : String) : Prop :=
  (∃ value : Value, unsupported name value.typeName ∈ log) ∨ overridden name ∈ log

/-- **A leaf is overwritten**: the last leaf of its name that a parameter can have sets another
value, and nothing is said of any leaf of that name. -/
structure Overwritten (c : Config) (draw : Int) (ls : List (String × Value)) (name : String)
    (value : Value) : Prop where
  replaced : ∃ v, last? name (settings ls) = some v ∧ launchValue? value ≠ some v
  supported : ∀ other, (name, other) ∈ ls → launchValue? other ≠ none
  /-- If the parameter is managed, the last leaf switches it off, and the value that is decided is
  not that of the leaf by chance. -/
  managed : isManaged c.rcon.passthrough name = true →
    last? name (settings ls) = some (.flag false) ∧
      parameter? name value ≠ some ⟨name, own c (c.seed.select draw) name⟩

/-! ## 2. What is said -/

/-- A line of the configuration's that is not about a launch parameter. -/
structure Other (line : Log.Line) : Prop where
  speaker : line.speaker = .config
  text : line.text.toList.take 10 ≠ "Ignoring l".toList

theorem Other.ne_unsupported {line : Log.Line} (h : Other line) (name typeName : String) :
    line ≠ unsupported name typeName := by
  rintro rfl
  refine h.text ?_
  simp [unsupported]

theorem toString_text (text : String) : toString text = text := rfl

theorem other_of_mem_searchSteamCmd {host : Host} {line : Log.Line}
    (h : line ∈ (searchSteamCmd host).log) : Other line := by
  unfold searchSteamCmd at h
  split at h
  · cases List.mem_singleton.mp h
    exact ⟨rfl, by simp [toString_text]⟩
  · cases List.mem_singleton.mp h
    exact ⟨rfl, by simp⟩

theorem other_of_mem_resolveSteamCmd {host : Host} {path? : Option String} {line : Log.Line}
    (h : line ∈ (resolveSteamCmd host path?).log) : Other line := by
  unfold resolveSteamCmd at h
  split at h
  · exact other_of_mem_searchSteamCmd h
  · split at h
    · cases List.mem_singleton.mp h
      exact ⟨rfl, by simp [toString_text]⟩
    · rcases List.mem_cons.mp h with rfl | h
      · exact ⟨rfl, by simp [toString_text]⟩
      · exact other_of_mem_searchSteamCmd h

theorem other_of_mem_dropInterval {u : UpdateConfig} {line : Log.Line}
    (h : line ∈ u.dropInterval.log) : Other line := by
  rw [UpdateConfig.dropInterval_log] at h
  split at h
  · cases List.mem_singleton.mp h
    exact ⟨rfl, by simp [toString_text]⟩
  · exact nomatch h

theorem other_of_mem_dropChecks {u : UpdateConfig} {line : Log.Line}
    (h : line ∈ u.dropChecks.log) : Other line := by
  rw [UpdateConfig.dropChecks_log] at h
  split at h
  · rcases List.mem_append.mp h with h | h
    · split at h
      · cases List.mem_singleton.mp h
        exact ⟨rfl, by simp⟩
      · exact nomatch h
    · split at h
      · cases List.mem_singleton.mp h
        exact ⟨rfl, by simp⟩
      · exact nomatch h
  · exact nomatch h

theorem overridden_inj {name name' : String} (h : overridden name = overridden name') :
    name = name' := by
  simpa [overridden, toString_text] using h

/-- The names of types. -/
def typeNames : List String :=
  ["string", "integer", "float", "boolean", "datetime", "array", "table"]

theorem typeName_mem (value : Value) : value.typeName ∈ typeNames := by
  cases value <;> simp [Value.typeName, typeNames]

/-- No type's name ends in the name of another. -/
theorem typeName_eq_of_suffix {t t' : String} (h : t ∈ typeNames) (h' : t' ∈ typeNames)
    (hsuffix : t.toList <:+ t'.toList) : t = t' := by
  have hall : ∀ t ∈ typeNames, ∀ t' ∈ typeNames, t.toList <:+ t'.toList → t = t' := by decide
  exact hall t h t' h' hsuffix

/-- The line says which parameter is meant, whatever is in its name. -/
theorem unsupported_inj {name name' : String} {value value' : Value}
    (h : unsupported name value.typeName = unsupported name' value'.typeName) : name = name' := by
  have htexts : name.toList ++ ("' with unsupported type ".toList ++ value.typeName.toList) =
      name'.toList ++ ("' with unsupported type ".toList ++ value'.typeName.toList) := by
    have hlist := congrArg (fun line : Log.Line => line.text.toList) h
    simpa [unsupported] using hlist
  have htypes : value.typeName = value'.typeName := by
    rw [← List.append_assoc, ← List.append_assoc] at htexts
    have hsuffix := List.suffix_append (name.toList ++ "' with unsupported type ".toList)
      value.typeName.toList
    have hsuffix' := List.suffix_append (name'.toList ++ "' with unsupported type ".toList)
      value'.typeName.toList
    rw [← htexts] at hsuffix'
    rcases List.suffix_or_suffix_of_suffix hsuffix hsuffix' with h | h
    · exact typeName_eq_of_suffix (typeName_mem value) (typeName_mem value') h
    · exact (typeName_eq_of_suffix (typeName_mem value') (typeName_mem value) h).symm
  rw [htypes] at htexts
  exact String.toList_injective (List.append_cancel_right htexts)

/-! ## 3. Reports -/

section Reports

variable {host : Host} {text name : String} {c : Config} {d : Document} {draw : Int} {s : Side}

/-- The parameters of a side are what its leaves set. -/
theorem params_eq (hd : Document.read? text = some d) (hc : (ofText host text).value = .ok c)
    (s : Side) : s.params c = setAll [] (settings (s.leaves d)) := by
  obtain ⟨d', hd', hminus, hplus, -⟩ := params_of_ofText hc
  cases hd.symm.trans hd'
  cases s with
  | minus => exact hminus
  | plus => exact hplus

theorem rising_params (hd : Document.read? text = some d) (hc : (ofText host text).value = .ok c)
    (s : Side) : (s.params c).Rising := by
  rw [params_eq hd hc]
  exact rising_setAll List.Pairwise.nil _

theorem find?_params (hd : Document.read? text = some d) (hc : (ofText host text).value = .ok c)
    (s : Side) : (s.params c).find? name = last? name (settings (s.leaves d)) := by
  rw [params_eq hd hc, find?_setAll]
  exact Option.or_none

/-- What is said while a configuration is read is about a leaf, or about other things. -/
theorem other_or_mem_complaints (hd : Document.read? text = some d)
    (hc : (ofText host text).value = .ok c) {line : Log.Line} (h : line ∈ (ofText host text).log) :
    Other line ∨ ∃ s : Side, line ∈ complaints (s.leaves d) := by
  obtain ⟨d', hd', -, -, hlog⟩ := params_of_ofText hc
  cases hd.symm.trans hd'
  rw [hlog] at h
  rcases List.mem_append.mp h with h | h
  · exact Or.inl (other_of_mem_resolveSteamCmd h)
  rcases List.mem_append.mp h with h | h
  · exact Or.inr ⟨.minus, h⟩
  rcases List.mem_append.mp h with h | h
  · exact Or.inr ⟨.plus, h⟩
  rcases List.mem_append.mp h with h | h
  · exact Or.inl (other_of_mem_dropInterval h)
  · exact Or.inl (other_of_mem_dropChecks h)

theorem complaints_subset (hd : Document.read? text = some d)
    (hc : (ofText host text).value = .ok c) (s : Side) :
    complaints (s.leaves d) ⊆ (ofText host text).log := by
  obtain ⟨d', hd', -, -, hlog⟩ := params_of_ofText hc
  cases hd.symm.trans hd'
  intro line h
  rw [hlog]
  cases s with
  | minus => exact List.mem_append_right _ (List.mem_append_left _ h)
  | plus =>
    exact List.mem_append_right _ (List.mem_append_right _ (List.mem_append_left _ h))

theorem mem_overrides_iff {p : Passthrough} {params : LaunchParams} {line : Log.Line} :
    line ∈ overrides p params ↔ ∃ name v, (name, v) ∈ params ∧
      (v ≠ .flag false ∧ isManaged p name = true) ∧ line = overridden name := by
  simp only [overrides, List.mem_filterMap, Option.ite_none_right_eq_some, Option.some.injEq]
  constructor
  · rintro ⟨⟨name, v⟩, hmem, hv, rfl⟩
    exact ⟨name, v, hmem, hv, rfl⟩
  · rintro ⟨name, v, hmem, hv, rfl⟩
    exact ⟨(name, v), hmem, hv, rfl⟩

/-- **What is reported**: a leaf of that name that no parameter can have, or an entry of that name,
if it is managed and not switched off. -/
theorem reported_iff (hd : Document.read? text = some d) (hc : (ofText host text).value = .ok c) :
    Reported (said host text c draw) name ↔
      (∃ (s : Side) (other : Value), (name, other) ∈ s.leaves d ∧ launchValue? other = none) ∨
      ∃ v, c.launchPlus.find? name = some v ∧ v ≠ .flag false ∧
        isManaged c.rcon.passthrough name = true := by
  constructor
  · rintro (⟨value, h⟩ | h) <;> rcases List.mem_append.mp h with h | h
    · rcases other_or_mem_complaints hd hc h with h | ⟨s, h⟩
      · exact absurd rfl (h.ne_unsupported _ _)
      · obtain ⟨name', other, hmem, hnone, heq⟩ := mem_complaints_iff.mp h
        cases unsupported_inj heq
        exact Or.inl ⟨s, other, hmem, hnone⟩
    · rw [ofConfig_eq] at h
      obtain ⟨name', v, -, -, heq⟩ := mem_overrides_iff.mp h
      exact nomatch congrArg Log.Line.speaker heq
    · rcases other_or_mem_complaints hd hc h with h | ⟨s, h⟩
      · exact nomatch h.speaker
      · obtain ⟨name', other, -, -, heq⟩ := mem_complaints_iff.mp h
        exact nomatch congrArg Log.Line.speaker heq
    · rw [ofConfig_eq] at h
      obtain ⟨name', v, hmem, hv, heq⟩ := mem_overrides_iff.mp h
      cases overridden_inj heq
      exact Or.inr ⟨v, (rising_params hd hc .plus).mem_iff.mp hmem, hv⟩
  · rintro (⟨s, other, hmem, hnone⟩ | ⟨v, hfind, hv⟩)
    · have hcomplaint := mem_complaints_iff.mpr ⟨name, other, hmem, hnone, rfl⟩
      exact Or.inl ⟨other, List.mem_append_left _ (complaints_subset hd hc s hcomplaint)⟩
    · refine Or.inr (List.mem_append_right _ ?_)
      rw [ofConfig_eq]
      exact mem_overrides_iff.mpr ⟨name, v, (rising_params hd hc .plus).mem_iff.mpr hfind, hv, rfl⟩

/-! ## 4. Parameters -/

/-- The name of a leaf has the mark of its side in front. -/
theorem mark_of_mem_leaves {value : Value} (h : (name, value) ∈ s.leaves d) :
    ∃ rest, name = s.mark ++ rest := by
  obtain ⟨path, -, rfl⟩ := mem_leaves_iff.mp h
  exact ⟨_, rfl⟩

theorem mark_of_mem_params (hd : Document.read? text = some d)
    (hc : (ofText host text).value = .ok c) {e : String × LaunchValue} (h : e ∈ s.params c) :
    ∃ rest, e.1 = s.mark ++ rest := by
  rw [params_eq hd hc] at h
  exact mark_of_mem_setAll h

/-- The sides do not share a name. -/
theorem side_eq_of_mark {s' : Side} {rest rest' : String} (h : s.mark ++ rest = s'.mark ++ rest') :
    s = s' := by
  cases s <;> cases s'
  · rfl
  · exact absurd h (minus_ne_plus rest rest')
  · exact absurd h.symm (minus_ne_plus rest' rest)
  · rfl

/-- What is given of a side under the name of a leaf is what the last leaf of that name sets. -/
theorem last?_of_mem_params (hd : Document.read? text = some d)
    (hc : (ofText host text).value = .ok c) {s' : Side} {rest : String} {e : String × LaunchValue}
    (he : e ∈ s'.params c) (hname : e.1 = s.mark ++ rest) :
    last? e.1 (settings (s.leaves d)) = some e.2 := by
  obtain ⟨rest', hrest'⟩ := mark_of_mem_params hd hc he
  cases side_eq_of_mark (hname.symm.trans hrest')
  rw [← find?_params hd hc]
  exact (rising_params hd hc s).mem_iff.mp he

/-- **What stands on the command line** under the name of a leaf that is not managed is what the
last such leaf sets. -/
theorem mem_parameters_iff (hd : Document.read? text = some d)
    (hc : (ofText host text).value = .ok c) {p : Parameter} {rest : String}
    (hp : p.name = s.mark ++ rest) (hm : isManaged c.rcon.passthrough p.name = false) :
    p ∈ parameters c draw ↔
      ∃ v, last? p.name (settings (s.leaves d)) = some v ∧ given? (p.name, v) = some p := by
  constructor
  · intro h
    have hentry : ∃ (s' : Side) (e : String × LaunchValue), e ∈ s'.params c ∧
        given? e = some p := by
      rcases List.mem_append.mp h with h | h
      · rcases List.mem_append.mp h with h | h
        · exact ⟨.minus, List.mem_filterMap.mp h⟩
        · obtain ⟨e, he, hgiven⟩ := List.mem_filterMap.mp h
          exact ⟨.plus, e, (List.mem_filter.mp he).1, hgiven⟩
      · exact absurd (isManaged_of_mem_managed h) (hm ▸ Bool.false_ne_true)
    obtain ⟨s', ⟨name, v⟩, he, hgiven⟩ := hentry
    obtain rfl := name_of_given? hgiven
    exact ⟨v, last?_of_mem_params hd hc he hp, hgiven⟩
  · rintro ⟨v, hlast, hgiven⟩
    rw [← find?_params hd hc, ← (rising_params hd hc s).mem_iff] at hlast
    cases s with
    | minus =>
      exact List.mem_append_left _ (List.mem_append_left _
        (List.mem_filterMap.mpr ⟨_, hlast, hgiven⟩))
    | plus =>
      have hkept : (p.name, v) ∈ unmanaged c.rcon.passthrough c.launchPlus :=
        List.mem_filter.mpr ⟨hlast, by simp [hm]⟩
      exact List.mem_append_left _ (List.mem_append_right _
        (List.mem_filterMap.mpr ⟨_, hkept, hgiven⟩))

/-! ## 5. Every leaf is accounted for -/

theorem name_of_parameter? {value : Value} {p : Parameter} (h : parameter? name value = some p) :
    p.name = name := by
  obtain ⟨v, -, hgiven⟩ := Option.bind_eq_some_iff.mp h
  exact name_of_given? hgiven

/-- What is given tells what was set. -/
theorem given?_inj {v v' : LaunchValue} {p : Parameter} (h : given? (name, v) = some p)
    (h' : given? (name, v') = some p) : v = v' := by
  have heq : given? (name, v) = given? (name, v') := h.trans h'.symm
  have hon : given? (name, v) ≠ none := h ▸ Option.some_ne_none p
  clear h h'
  rcases v with (_ | _) | t <;> rcases v' with (_ | _) | t' <;> simp_all [given?]

theorem given?_of_on {v : LaunchValue} (h : v ≠ .flag false) : ∃ p, given? (name, v) = some p := by
  rcases v with (_ | _) | t
  · exact absurd rfl h
  · exact ⟨_, rfl⟩
  · exact ⟨_, rfl⟩

theorem eq_false_of_launchValue? {value : Value} (h : launchValue? value = some (.flag false)) :
    value = .boolean false := by
  cases value <;> simp_all [launchValue?]

/-- The side of a managed leaf is the one with a plus. -/
theorem side_of_isManaged {p : Passthrough} {value : Value} (hmem : (name, value) ∈ s.leaves d)
    (hm : isManaged p name = true) : s = .plus := by
  obtain ⟨rest, hrest⟩ := mark_of_mem_leaves hmem
  obtain ⟨rest', hrest'⟩ := mark_of_isManaged hm
  exact side_eq_of_mark (hrest.symm.trans hrest')

/-- A leaf of a managed name stands on the command line only if it says what is decided anyway. -/
theorem kept_managed_iff (hc : (ofText host text).value = .ok c) {value : Value}
    (hm : isManaged c.rcon.passthrough name = true) :
    Kept c draw name value ↔
      parameter? name value = some ⟨name, own c (c.seed.select draw) name⟩ := by
  have honce := filter_parameters (LaunchSound.of_ofText hc) draw hm
  constructor
  · rintro ⟨p, hparameter, hp⟩
    have hmem : p ∈ (parameters c draw).filter (·.name = name) :=
      List.mem_filter.mpr ⟨hp, by simp [name_of_parameter? hparameter]⟩
    rw [honce, List.mem_singleton] at hmem
    rw [hparameter, hmem]
  · intro h
    refine ⟨_, h, (List.mem_filter.mp (honce ▸ List.mem_singleton_self _)).1⟩

/-- **What is not overwritten is accounted for.** -/
theorem accounted_of_not_overwritten (hd : Document.read? text = some d)
    (hc : (ofText host text).value = .ok c) {value : Value} (hmem : (name, value) ∈ s.leaves d)
    (hon : value ≠ .boolean false) (h : ¬ Overwritten c draw (s.leaves d) name value) :
    Kept c draw name value ∨ Reported (said host text c draw) name := by
  by_cases hsome : ∃ other, (name, other) ∈ s.leaves d ∧ launchValue? other = none
  · exact Or.inr ((reported_iff hd hc).mpr (Or.inl ⟨s, hsome⟩))
  have hsupported (other : Value) (ho : (name, other) ∈ s.leaves d) : launchValue? other ≠ none :=
    fun hnone => hsome ⟨other, ho, hnone⟩
  obtain ⟨w, hw⟩ := Option.ne_none_iff_exists'.mp (hsupported value hmem)
  obtain ⟨v, hv⟩ := exists_last? (mem_settings_iff.mpr ⟨value, hmem, hw⟩)
  by_cases hm : isManaged c.rcon.passthrough name = true
  · obtain rfl := side_of_isManaged hmem hm
    by_cases hoff : v = .flag false
    · refine Or.inl ((kept_managed_iff hc hm).mpr ?_)
      by_contra hother
      refine h ⟨⟨v, hv, fun hvalue => hon ?_⟩, hsupported, fun _ => ⟨hoff ▸ hv, hother⟩⟩
      exact eq_false_of_launchValue? (hoff ▸ hvalue)
    · refine Or.inr ((reported_iff hd hc).mpr (Or.inr ⟨v, ?_, hoff, hm⟩))
      exact (find?_params hd hc .plus).trans hv
  · have hvalue : launchValue? value = some v := by
      by_contra hother
      exact h ⟨⟨v, hv, hother⟩, hsupported, fun hm' => absurd hm' hm⟩
    obtain ⟨p, hp⟩ : ∃ p, given? (name, v) = some p :=
      given?_of_on fun hoff => hon (eq_false_of_launchValue? (hoff ▸ hvalue))
    have hname := name_of_given? hp
    obtain ⟨rest, hrest⟩ := mark_of_mem_leaves hmem
    refine Or.inl ⟨p, by rw [parameter?, hvalue, Option.bind_some, hp], ?_⟩
    refine (mem_parameters_iff hd hc (hname.trans hrest) ?_).mpr ⟨v, ?_, ?_⟩
    · rw [hname]
      exact Bool.eq_false_iff.mpr hm
    · rw [hname]
      exact hv
    · rw [hname]
      exact hp

/-- **What is overwritten leaves no trace.** -/
theorem not_accounted_of_overwritten (hd : Document.read? text = some d)
    (hc : (ofText host text).value = .ok c) {value : Value} (hmem : (name, value) ∈ s.leaves d)
    (h : Overwritten c draw (s.leaves d) name value) :
    ¬ Kept c draw name value ∧ ¬ Reported (said host text c draw) name := by
  obtain ⟨⟨v, hv, hother⟩, hsupported, hmanaged⟩ := h
  obtain ⟨rest, hrest⟩ := mark_of_mem_leaves hmem
  constructor
  · intro hkept
    by_cases hm : isManaged c.rcon.passthrough name = true
    · exact (hmanaged hm).2 ((kept_managed_iff hc hm).mp hkept)
    · obtain ⟨p, hparameter, hp⟩ := hkept
      obtain rfl := name_of_parameter? hparameter
      obtain ⟨v', hv', hgiven'⟩ :=
        (mem_parameters_iff hd hc hrest (Bool.eq_false_iff.mpr hm)).mp hp
      obtain ⟨w, hw, hgiven⟩ := Option.bind_eq_some_iff.mp hparameter
      cases hv.symm.trans hv'
      exact hother (given?_inj hgiven hgiven' ▸ hw)
  · rw [reported_iff hd hc]
    rintro (⟨s', other, hmem', hnone⟩ | ⟨v', hfind, hon, hm⟩)
    · obtain ⟨rest', hrest'⟩ := mark_of_mem_leaves hmem'
      cases side_eq_of_mark (hrest.symm.trans hrest')
      exact hsupported other hmem' hnone
    · obtain rfl := side_of_isManaged hmem hm
      have hlast := (hmanaged hm).1
      rw [← find?_params hd hc] at hlast
      exact hon (Option.some.inj (hfind.symm.trans hlast))

end Reports

/-- **No parameter is lost, unless a later one has its name.**  The arguments of a configuration
that was read are its parameters, one after another.  Every leaf that is not just switched off is
among them with its value, or its name is reported, exactly if it is not overwritten; so it is if
every leaf of its name has its value. -/
theorem leaf_accounted_iff {host : Host} {text : String} {c : Config}
    (hc : (ofText host text).value = .ok c) (draw : Int) :
    (ofConfig c draw).value.args = (parameters c draw).flatMap Parameter.args ∧
    ∃ d, Document.read? text = some d ∧
      ∀ (s : Side) (path : List String) (value : Value), IsLeaf (s.entries d) path value →
        value ≠ .boolean false →
        (Kept c draw (dotted s.mark path) value ∨
            Reported (said host text c draw) (dotted s.mark path) ↔
          ¬ Overwritten c draw (s.leaves d) (dotted s.mark path) value) ∧
        ((∀ path' value', IsLeaf (s.entries d) path' value' →
            dotted s.mark path' = dotted s.mark path → value' = value) →
          Kept c draw (dotted s.mark path) value ∨
            Reported (said host text c draw) (dotted s.mark path)) := by
  obtain ⟨d, hd, -⟩ := params_of_ofText hc
  refine ⟨by rw [ofConfig_eq], d, hd, ?_⟩
  intro s path value hleaf hon
  have hmem : (dotted s.mark path, value) ∈ s.leaves d := hleaf.mem_leaves
  have hkept (hnot : ¬ Overwritten c draw (s.leaves d) (dotted s.mark path) value) :=
    accounted_of_not_overwritten hd hc hmem hon hnot
  constructor
  · refine ⟨?_, hkept⟩
    intro haccounted hlost
    obtain ⟨hnotKept, hnotReported⟩ := not_accounted_of_overwritten hd hc hmem hlost
    exact haccounted.elim hnotKept hnotReported
  · intro hsame
    apply hkept
    intro hlost
    obtain ⟨v, hv, hother⟩ := hlost.replaced
    obtain ⟨last, hlast, hvalue⟩ := mem_settings_iff.mp (mem_of_last? hv)
    obtain ⟨path', hleaf', hname⟩ := mem_leaves_iff.mp hlast
    exact hother (hsame path' last hleaf' hname.symm ▸ hvalue)

/-! ## 6. Two spellings of one port -/

/-- A configuration with a nested port and a quoted one. -/
def collidingText : String :=
  "[install]\npath = \"/srv/rust\"\nidentity = \"main\"\n\n[rcon]\npassword = \"hunter2\"\n\n" ++
    "[seed]\nstrategy = \"fixed\"\nfixed = 42\n\n[launch.plus]\n\"server.port\" = 28015\n\n" ++
    "[launch.plus.server]\nport = 28016\n"

/-- A host without files. -/
def bareHost : Host where
  files := ⟨[], []⟩
  searchPath := none

def isColliding : List (String × Value) → Bool
  | [("server", .table _ [("port", .integer 28016)]), ("server.port", .integer 28015)] => true
  | _ => false

theorem leaves_of_isColliding {entries : List (String × Value)} (h : isColliding entries = true) :
    IsLeaf entries ["server", "port"] (.integer 28016) ∧
      IsLeaf entries ["server.port"] (.integer 28015) ∧
      leaves "+" entries =
        [("+server.port", .integer 28016), ("+server.port", .integer 28015)] := by
  unfold isColliding at h
  split at h
  · refine ⟨?_, ?_, ?_⟩
    · exact .inside List.mem_cons_self (.here List.mem_cons_self rfl)
    · exact .here (List.mem_cons_of_mem _ List.mem_cons_self) rfl
    · simp only [leaves]
      rfl
  · exact absurd h Bool.false_ne_true

theorem collidingText_accepted : ∃ c d, (ofText bareHost collidingText).value = .ok c ∧
    Document.read? collidingText = some d ∧ isColliding d.launch.plus = true := by
  have hok : (ofText bareHost collidingText).value.toBool = true := by decide +kernel
  have hread : (Document.read? collidingText).any (isColliding ·.launch.plus) = true := by
    decide +kernel
  obtain ⟨d, hd, hcolliding⟩ : ∃ d, Document.read? collidingText = some d ∧
      isColliding d.launch.plus = true := by
    cases hd : Document.read? collidingText with
    | none => exact nomatch hd ▸ hread
    | some d =>
      rw [hd] at hread
      exact ⟨d, rfl, hread⟩
  cases hresult : (ofText bareHost collidingText).value with
  | error e => exact nomatch hresult ▸ hok
  | ok c => exact ⟨c, d, rfl, hd, hcolliding⟩

theorem port_overwritten {c : Config} {draw : Int} {ls : List (String × Value)}
    (h : ls = [("+server.port", .integer 28016), ("+server.port", .integer 28015)]) :
    Overwritten c draw ls "+server.port" (.integer 28016) where
  replaced := ⟨.text "28015", by rw [h]; decide +kernel, by decide +kernel⟩
  supported := by
    rintro other hmem
    simp only [h, List.mem_cons, Prod.mk.injEq, true_and, List.not_mem_nil, or_false] at hmem
    rcases hmem with rfl | rfl
    · exact Option.some_ne_none _
    · exact Option.some_ne_none _
  managed := nofun

/-- The nested port is lost, and nothing is said. -/
theorem port_lost : ∃ c d, (ofText bareHost collidingText).value = .ok c ∧
    Document.read? collidingText = some d ∧
    IsLeaf d.launch.plus ["server", "port"] (.integer 28016) ∧
    ∀ draw, ¬ Kept c draw "+server.port" (.integer 28016) ∧
      ¬ Reported (said bareHost collidingText c draw) "+server.port" := by
  obtain ⟨c, d, hc, hd, hcolliding⟩ := collidingText_accepted
  obtain ⟨hleaf, -, hleaves⟩ := leaves_of_isColliding hcolliding
  refine ⟨c, d, hc, hd, hleaf, ?_⟩
  intro draw
  have hmem : ("+server.port", Value.integer 28016) ∈ Side.plus.leaves d := by
    rw [Side.leaves, Side.entries, Side.mark, hleaves]
    exact List.mem_cons_self
  exact not_accounted_of_overwritten hd hc hmem (port_overwritten hleaves)

theorem leaf_accounted_iff_ports : ∃ c d, (ofText bareHost collidingText).value = .ok c ∧
    Document.read? collidingText = some d ∧
    (Kept c 7 "+server.port" (.integer 28015) ∨
      Reported (said bareHost collidingText c 7) "+server.port") ∧
    ¬ (Kept c 7 "+server.port" (.integer 28016) ∨
      Reported (said bareHost collidingText c 7) "+server.port") := by
  obtain ⟨c, d, hc, hd, hcolliding⟩ := collidingText_accepted
  obtain ⟨hnested, hquoted, hleaves⟩ := leaves_of_isColliding hcolliding
  obtain ⟨-, d', hd', hall⟩ := leaf_accounted_iff hc 7
  cases hd.symm.trans hd'
  have hlater := (hall .plus ["server.port"] (.integer 28015) hquoted nofun).1
  have hearlier := (hall .plus ["server", "port"] (.integer 28016) hnested nofun).1
  rw [show dotted Side.plus.mark ["server.port"] = "+server.port" from rfl] at hlater
  rw [show dotted Side.plus.mark ["server", "port"] = "+server.port" from rfl] at hearlier
  refine ⟨c, d, hc, hd, hlater.mpr ?_, ?_⟩
  · intro hlost
    obtain ⟨v, hv, hother⟩ := hlost.replaced
    rw [show Side.plus.leaves d = _ from hleaves] at hv
    exact hother (hv.symm.trans (by decide +kernel)).symm
  · intro haccounted
    exact hearlier.mp haccounted (port_overwritten hleaves)

end Config
end ServerWarden
