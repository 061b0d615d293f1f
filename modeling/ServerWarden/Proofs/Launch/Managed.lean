/-
# Managed parameters are decided here

Some parameters of the command line have values that this program decides, as it relies on them
itself: the console's password, the identity, the seed.  An entry of the configuration with such a
name has no influence.  Two configurations that differ only in such entries give the same command
line, and on it every managed parameter stands once, with the value that was decided (`own`): among
the configured ones none has its name, as those with a minus are marked as such and the managed ones
with a plus are left out.

Texts of other parameters may well look like the name of a managed one.  They stand behind a name of
their own, so it is the parameters that count, and not the arguments.
-/
import ServerWarden.Proofs.Launch.Parameters
import ServerWarden.Proofs.Text.ByteOrder

namespace ServerWarden

namespace LaunchSpec

/-! ## 1. What is left of the configured parameters -/

/-- Names in the order of their bytes. -/
def InByteOrder (names : List String) : Prop :=
  names.Pairwise fun a b => Text.Utf8.encode a < Text.Utf8.encode b

theorem name_of_given? {e : String × LaunchValue} {p : Parameter} (h : given? e = some p) :
    p.name = e.1 := by
  obtain ⟨name, value⟩ := e
  cases value with
  | flag on =>
    cases on with
    | false => exact nomatch h
    | true => cases h; rfl
  | text t => cases h; rfl

theorem enabled_inByteOrder {params : LaunchParams} (h : params.Rising) :
    InByteOrder ((enabled params).map (·.name)) := by
  rw [InByteOrder, List.pairwise_map, enabled, List.pairwise_filterMap]
  apply h.imp
  intro e e' hlt p hp q hq
  rw [name_of_given? hp, name_of_given? hq]
  exact Text.Utf8.lt_iff_encode_lt.mp hlt

/-- A name that no entry has is not given. -/
theorem filter_enabled_eq_nil {params : LaunchParams} {name : String}
    (h : ∀ e ∈ params, e.1 ≠ name) : (enabled params).filter (·.name = name) = [] := by
  rw [List.filter_eq_nil_iff]
  intro p hp
  obtain ⟨e, he, hgiven⟩ := List.mem_filterMap.mp hp
  simpa [name_of_given? hgiven] using h e he

/-- The entries that are not managed are the same if they are found alike. -/
theorem unmanaged_congr {p : Passthrough} {params params' : LaunchParams} (h : params.Rising)
    (h' : params'.Rising)
    (hsame : ∀ name, isManaged p name = false → params'.find? name = params.find? name) :
    unmanaged p params' = unmanaged p params := by
  apply NameMap.Rising.ext (List.Pairwise.filter _ h') (List.Pairwise.filter _ h)
  intro name
  rw [NameMap.find?_filter (!isManaged p ·), NameMap.find?_filter (!isManaged p ·)]
  cases hm : isManaged p name with
  | false => exact hsame name hm
  | true => rfl

/-- An entry that is not managed is found where the managed ones are left out. -/
theorem find?_unmanaged {p : Passthrough} {params : LaunchParams} {name : String}
    (h : isManaged p name = false) : (unmanaged p params).find? name = params.find? name := by
  rw [unmanaged, NameMap.find?_filter (!isManaged p ·), h]
  rfl

/-! ## 2. What is decided -/

/-- The value that is decided for a managed parameter. -/
def own (c : Config) (seed : Int) : String → Option String
  | "+rcon.password" => some c.rcon.password
  | "+rcon.ip" => some c.rcon.ip
  | "+rcon.port" => some (toString c.rcon.port)
  | "+rcon.web" => some "1"
  | "+server.identity" => some c.identity
  | "+server.seed" => some (toString seed)
  | _ => none

theorem isManaged_cases {p : Passthrough} {name : String} (h : isManaged p name = true) :
    name = "+rcon.password" ∨ name = "+rcon.web" ∨ name = "+server.identity" ∨
      name = "+server.seed" ∨ (name = "+rcon.ip" ∧ p.ip = true) ∨
      (name = "+rcon.port" ∧ p.port = true) := by
  unfold isManaged at h
  split at h <;> simp_all

theorem filter_managed {c : Config} {seed : Int} {name : String}
    (h : isManaged c.rcon.passthrough name = true) :
    (managed c seed).filter (·.name = name) = [⟨name, own c seed name⟩] := by
  rw [managed]
  rcases isManaged_cases h with rfl | rfl | rfl | rfl | ⟨rfl, hip⟩ | ⟨rfl, hport⟩
  · split_ifs <;> rfl
  · split_ifs <;> rfl
  · split_ifs <;> rfl
  · split_ifs <;> rfl
  · rw [if_pos hip]
    split_ifs <;> rfl
  · rw [if_pos hport]
    split_ifs <;> rfl

theorem isManaged_of_mem_managed {c : Config} {seed : Int} {p : Parameter}
    (h : p ∈ managed c seed) : isManaged c.rcon.passthrough p.name = true := by
  have hall : ∀ p ∈ managed c seed, isManaged c.rcon.passthrough p.name = true := by
    unfold managed
    split_ifs with hip hport hport
    all_goals simp [isManaged, *]
  exact hall p h

/-- Managed names are marked with a plus. -/
theorem mark_of_isManaged {p : Passthrough} {name : String} (h : isManaged p name = true) :
    ∃ rest, name = "+" ++ rest := by
  rcases isManaged_cases h with rfl | rfl | rfl | rfl | ⟨rfl, -⟩ | ⟨rfl, -⟩
  · exact ⟨"rcon.password", rfl⟩
  · exact ⟨"rcon.web", rfl⟩
  · exact ⟨"server.identity", rfl⟩
  · exact ⟨"server.seed", rfl⟩
  · exact ⟨"rcon.ip", rfl⟩
  · exact ⟨"rcon.port", rfl⟩

theorem minus_ne_plus (rest rest' : String) : "-" ++ rest ≠ "+" ++ rest' := by
  intro h
  have hlist := congrArg String.toList h
  simp at hlist

/-- No configured parameter that is left has a managed name. -/
theorem filter_enabled_unmanaged {p : Passthrough} {params : LaunchParams} {name : String}
    (h : isManaged p name = true) :
    (enabled (unmanaged p params)).filter (·.name = name) = [] := by
  apply filter_enabled_eq_nil
  intro e he heq
  have hm : isManaged p e.1 = false := by simpa using (List.mem_filter.mp he).2
  exact Bool.false_ne_true (hm.symm.trans (heq ▸ h))

/-- **A managed parameter stands once**, with the value that was decided. -/
theorem filter_parameters {c : Config} (hc : c.LaunchSound) (draw : Int) {name : String}
    (h : isManaged c.rcon.passthrough name = true) :
    (parameters c draw).filter (·.name = name) = [⟨name, own c (c.seed.select draw) name⟩] := by
  have hminus : (enabled c.launchMinus).filter (·.name = name) = [] := by
    apply filter_enabled_eq_nil
    intro e he heq
    obtain ⟨rest, hrest⟩ := hc.marked e he
    obtain ⟨rest', hrest'⟩ := mark_of_isManaged h
    exact minus_ne_plus rest rest' (hrest.symm.trans (heq.trans hrest'))
  rw [parameters, List.filter_append, List.filter_append, hminus, filter_enabled_unmanaged h,
    filter_managed h]
  rfl

end LaunchSpec

/-! ## 3. The configured duplicates -/

/-- Configurations that differ at most in entries for managed parameters. -/
def Config.SameButManaged (c c' : Config) : Prop :=
  c' = { c with launchPlus := c'.launchPlus } ∧
    ∀ name, LaunchSpec.isManaged c.rcon.passthrough name = false →
      c'.launchPlus.find? name = c.launchPlus.find? name

namespace LaunchSpec

theorem select_congr {s : SeedStrategy} (h : s ≠ .random) (draw draw' : Int) :
    s.select draw' = s.select draw := by
  cases s with
  | fixed seed => rfl
  | list seeds => rfl
  | random => exact absurd rfl h

/-- **Entries for managed parameters have no influence.** -/
theorem value_congr {c c' : Config} (hc : c.LaunchSound) (hc' : c'.LaunchSound)
    (hseed : c.seed ≠ .random) (hsame : c.SameButManaged c') (draw draw' : Int) :
    (ofConfig c' draw').value = (ofConfig c draw).value := by
  obtain ⟨heq, hfind⟩ := hsame
  have hunmanaged := unmanaged_congr hc.plus hc'.plus hfind
  generalize c'.launchPlus = plus at heq hunmanaged
  subst heq
  have hparameters : parameters { c with launchPlus := plus } draw' = parameters c draw := by
    unfold parameters
    simp only [hunmanaged, select_congr hseed draw draw']
    rfl
  simp only [ofConfig_eq, hparameters]

/-- **Managed parameters are decided here.**  Of configurations whose seed is not drawn, any two
that differ only in entries for managed parameters give the same command line.  It has the
configured parameters that are not switched off, those with a minus before those with a plus, each
kind in the order of the bytes of their names and without the managed ones; then come the managed
ones, each once, with the value that was decided.  Every configuration that was read is sound. -/
theorem managed_decided :
    (∀ (host : Host) (text : String) (c : Config),
      (Config.ofText host text).value = .ok c → c.LaunchSound) ∧
    ∀ (c : Config) (draw : Int), c.LaunchSound → c.seed ≠ .random →
      (∀ (c' : Config) (draw' : Int), c'.LaunchSound → c.SameButManaged c' →
        (ofConfig c' draw').value = (ofConfig c draw).value) ∧
      (ofConfig c draw).value.args =
        (enabled c.launchMinus ++ enabled (unmanaged c.rcon.passthrough c.launchPlus) ++
          managed c (c.seed.select draw)).flatMap Parameter.args ∧
      InByteOrder ((enabled c.launchMinus).map (·.name)) ∧
      InByteOrder ((enabled (unmanaged c.rcon.passthrough c.launchPlus)).map (·.name)) ∧
      ∀ name, isManaged c.rcon.passthrough name = true →
        (parameters c draw).filter (·.name = name) =
          [⟨name, own c (c.seed.select draw) name⟩] := by
  constructor
  · intro host text c h
    exact .of_ofText h
  · intro c draw hc hseed
    refine ⟨?_, ?_, ?_, ?_, ?_⟩
    · intro c' draw' hc' hsame
      exact value_congr hc hc' hseed hsame draw draw'
    · rw [ofConfig_eq, parameters]
    · exact enabled_inByteOrder hc.minus
    · exact enabled_inByteOrder (List.Pairwise.filter _ hc.plus)
    · intro name h
      exact filter_parameters hc draw h

/-- A configuration that hands on the console's port, but not its address. -/
def sample (plus : LaunchParams) : Config where
  logLevel := Config.defaultLogLevel
  installPath := "/srv/rust"
  identity := "main"
  downloadPath := "/tmp"
  server := .default
  rcon := { RconConfig.default with password := "hunter2", passthrough := ⟨false, true⟩ }
  seed := .fixed 12
  steamCmdPath := none
  update := .default
  launchMinus := [("-batchmode", .flag true), ("-logfile", .flag false)]
  launchPlus := plus

/-- Parameters of which none is managed, though the text of one looks like it. -/
def ownParams : LaunchParams :=
  [("+rcon.ip", .text "0.0.0.0"), ("+server.hostname", .text "+rcon.password")]

/-- The same with entries for managed parameters. -/
def duplicateParams : LaunchParams :=
  [("+rcon.ip", .text "0.0.0.0"), ("+rcon.password", .text "leaked"), ("+rcon.port", .flag true),
    ("+server.hostname", .text "+rcon.password"), ("+server.seed", .flag false)]

theorem managed_decided_duplicates :
    (ofConfig (sample duplicateParams) 7).value = (ofConfig (sample ownParams) 5).value ∧
    (ofConfig (sample ownParams) 5).value.args =
      ["-batchmode", "+rcon.ip", "0.0.0.0", "+server.hostname", "+rcon.password",
        "+rcon.password", "hunter2", "+rcon.port", "28016", "+rcon.web", "1",
        "+server.identity", "main", "+server.seed", "12"] ∧
    (parameters (sample ownParams) 5).filter (·.name = "+rcon.password") =
      [⟨"+rcon.password", some "hunter2"⟩] := by
  have hsound (plus : LaunchParams) (h : plus.Rising) : (sample plus).LaunchSound := {
    minus := by simp only [sample, NameMap.Rising]; decide +kernel
    plus := h
    marked := by
      intro e he
      rcases List.mem_cons.mp he with rfl | he
      · exact ⟨"batchmode", rfl⟩
      · cases List.mem_singleton.mp he
        exact ⟨"logfile", rfl⟩ }
  have hown : (sample ownParams).LaunchSound :=
    hsound _ (by simp only [ownParams, NameMap.Rising]; decide +kernel)
  have hduplicate : (sample duplicateParams).LaunchSound :=
    hsound _ (by simp only [duplicateParams, NameMap.Rising]; decide +kernel)
  have hsame : (sample ownParams).SameButManaged (sample duplicateParams) := by
    refine ⟨rfl, ?_⟩
    intro name h
    rw [← find?_unmanaged h, ← find?_unmanaged h]
    rfl
  have hseed : (sample ownParams).seed ≠ .random := by simp [sample]
  obtain ⟨hvalue, hargs, -, -, honce⟩ := managed_decided.2 (sample ownParams) 5 hown hseed
  refine ⟨hvalue _ 7 hduplicate hsame, ?_, ?_⟩
  · exact hargs.trans (by decide +kernel)
  · exact honce _ (by decide +kernel)

end LaunchSpec
end ServerWarden
