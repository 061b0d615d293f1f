/-
# Launch parameters, from a file to the command line

A leaf of a file is a value below a table of launch parameters that is no table itself (`IsLeaf`).
`flattenParams` walks the tables and meets the leaves in order (`mem_leaves_iff`).  It complains of
those that no parameter can have, and sets the others, one after another (`flattenParams_eq`), so
that of several leaves of one name the last one counts (`find?_setAll`).

A configuration that was read has its parameters in name order, and those with a minus are marked
as such (`Config.LaunchSound.of_ofText`).  Its command line is what its parameters say, and building
it complains of the managed ones that are left out (`LaunchSpec.ofConfig_eq`).
-/
import ServerWarden.Launch
import ServerWarden.Proofs.Config.Normal
import ServerWarden.Proofs.Launch.Names

namespace ServerWarden

open Toml (Value)

namespace Config

/-! ## 1. Leaves -/

/-- A table holds further leaves, and is none. -/
def isTable : Value → Bool
  | .table _ _ => true
  | _ => false

/-- A leaf below a table: the names that lead to it, and its value. -/
inductive IsLeaf : List (String × Value) → List String → Value → Prop where
  | here {entries : List (String × Value)} {key : String} {value : Value} :
    (key, value) ∈ entries → isTable value = false → IsLeaf entries [key] value
  | inside {entries below : List (String × Value)} {key : String} {origin : Toml.TableOrigin}
      {path : List String} {value : Value} :
    (key, .table origin below) ∈ entries → IsLeaf below path value →
    IsLeaf entries (key :: path) value

/-- The name of the parameter that a leaf sets. -/
def dotted (mark : String) (path : List String) : String := mark ++ ".".intercalate path

/-- The leaves below a table with their names, in the order of a walk. -/
def leaves (mark : String) : List (String × Value) → List (String × Value)
  | [] => []
  | (key, .table _ below) :: rest => leaves (mark ++ key ++ ".") below ++ leaves mark rest
  | (key, leaf) :: rest => (mark ++ key, leaf) :: leaves mark rest

/-- The value that a leaf gives to its parameter, if a parameter can have it. -/
def launchValue? : Value → Option LaunchValue
  | .boolean b => some (.flag b)
  | .integer n => some (.text (toString n))
  | .float x => some (.text x.text)
  | .string s => some (.text s)
  | _ => none

/-- What is said about a leaf that no parameter can have. -/
def unsupported (name typeName : String) : Log.Line :=
  ⟨.warn, .config, "Ignoring launch parameter '" ++ name ++ "' with unsupported type " ++ typeName⟩

/-- What is set by leaves. -/
def settings (ls : List (String × Value)) : List (String × LaunchValue) :=
  ls.filterMap fun l => (launchValue? l.2).map (l.1, ·)

/-- What is said about leaves. -/
def complaints (ls : List (String × Value)) : List Log.Line :=
  ls.filterMap fun l =>
    if launchValue? l.2 = none then some (unsupported l.1 l.2.typeName) else none

/-- Sets parameters, one after another. -/
def setAll (out : LaunchParams) (set : List (String × LaunchValue)) : LaunchParams :=
  set.foldl (fun out s => out.insert s.1 s.2) out

section Walk

variable {mark key name : String} {value : Value} {rest ls ls' : List (String × Value)}
  {out : LaunchParams}

theorem isTable_eq_false (h : ∀ origin below, value = .table origin below → False) :
    isTable value = false := by
  cases value with
  | table origin below => exact (h origin below rfl).elim
  | _ => rfl

theorem leaves_cons (h : isTable value = false) :
    leaves mark ((key, value) :: rest) = (mark ++ key, value) :: leaves mark rest := by
  cases value with
  | table origin below => exact nomatch h
  | _ => simp [leaves]

theorem leaves_cons_table {origin : Toml.TableOrigin} {below : List (String × Value)} :
    leaves mark ((key, .table origin below) :: rest) =
      leaves (mark ++ key ++ ".") below ++ leaves mark rest := by
  rw [leaves]

theorem setAll_append {set set' : List (String × LaunchValue)} :
    setAll out (set ++ set') = setAll (setAll out set) set' := List.foldl_append

theorem settings_append : settings (ls ++ ls') = settings ls ++ settings ls' :=
  List.filterMap_append

theorem complaints_append : complaints (ls ++ ls') = complaints ls ++ complaints ls' :=
  List.filterMap_append

/-- A leaf that a parameter can have is set before the others. -/
theorem setAll_settings_cons {v : LaunchValue} (h : launchValue? value = some v) :
    (⟨setAll out (settings ((name, value) :: ls)), complaints ((name, value) :: ls)⟩ :
      Logged LaunchParams) = ⟨setAll (out.insert name v) (settings ls), complaints ls⟩ := by
  simp [settings, complaints, setAll, h]

/-- Of a leaf that no parameter can have, it is only said so. -/
theorem setAll_settings_cons_none (h : launchValue? value = none) :
    (⟨setAll out (settings ((name, value) :: ls)), complaints ((name, value) :: ls)⟩ :
      Logged LaunchParams) =
      ⟨setAll out (settings ls), unsupported name value.typeName :: complaints ls⟩ := by
  simp [settings, complaints, h]

/-- **What becomes of the leaves**: they are set in the order of the walk, or complained of. -/
theorem flattenParams_eq (mark : String) (entries : List (String × Value)) (out : LaunchParams) :
    flattenParams mark entries out =
      ⟨setAll out (settings (leaves mark entries)), complaints (leaves mark entries)⟩ := by
  fun_induction flattenParams mark entries out with
  | case1 mark out => rw [leaves]; rfl
  | case2 mark key rest out _ _ b ih | case3 mark key rest out _ _ n ih
  | case4 mark key rest out _ _ x ih | case5 mark key rest out _ _ s ih =>
    rw [leaves_cons rfl, setAll_settings_cons rfl]
    exact ih _
  | case6 mark key rest out _ _ origin below ihrest ihbelow =>
    rw [leaves_cons_table, settings_append, setAll_append, complaints_append, ihbelow]
    show Logged.mk (flattenParams mark rest _).value (_ ++ (flattenParams mark rest _).log) = _
    rw [ihrest]
  | case7 mark key rest out _ _ other hb hn hx hs ht ih =>
    have hnone : launchValue? other = none := by
      cases other with
      | boolean b => exact (hb b rfl).elim
      | integer n => exact (hn n rfl).elim
      | float x => exact (hx x rfl).elim
      | string s => exact (hs s rfl).elim
      | table origin below => exact (ht origin below rfl).elim
      | datetime | array | tables => rfl
    rw [leaves_cons (isTable_eq_false ht), setAll_settings_cons_none hnone]
    show Logged.mk (flattenParams mark rest out).value (_ :: (flattenParams mark rest out).log) = _
    rw [ih]
    rfl

theorem leaves_cons_append {e : String × Value} :
    leaves mark (e :: rest) = leaves mark [e] ++ leaves mark rest := by
  obtain ⟨key, value⟩ := e
  cases value with
  | table origin below => simp [leaves]
  | _ => simp [leaves]

/-- Each entry has its leaves among those of the table. -/
theorem leaves_subset {e : String × Value} {entries : List (String × Value)} (he : e ∈ entries) :
    leaves mark [e] ⊆ leaves mark entries := by
  induction entries with
  | nil => exact nomatch he
  | cons first rest ih =>
    rw [leaves_cons_append (e := first)]
    rcases List.mem_cons.mp he with rfl | he
    · exact List.subset_append_left _ _
    · exact List.Subset.trans (ih he) (List.subset_append_right _ _)

theorem IsLeaf.path_ne_nil {entries : List (String × Value)} {path : List String}
    (h : IsLeaf entries path value) : path ≠ [] := by
  cases h with
  | here => exact List.cons_ne_nil _ _
  | inside => exact List.cons_ne_nil _ _

theorem dotted_cons {path : List String} (h : path ≠ []) :
    dotted mark (key :: path) = dotted (mark ++ key ++ ".") path := by
  rw [dotted, dotted, String.intercalate_cons_of_ne_nil h]
  simp only [String.append_assoc]

theorem IsLeaf.mem_leaves {entries : List (String × Value)} {path : List String}
    (h : IsLeaf entries path value) : (dotted mark path, value) ∈ leaves mark entries := by
  induction h generalizing mark with
  | here hmem hleaf =>
    refine leaves_subset hmem ?_
    rw [leaves_cons hleaf, dotted, String.intercalate_singleton]
    exact List.mem_cons_self
  | inside hmem hbelow ih =>
    refine leaves_subset hmem ?_
    rw [leaves_cons_table, dotted_cons hbelow.path_ne_nil]
    exact List.mem_append_left _ ih

theorem IsLeaf.mono {entries entries' : List (String × Value)} {path : List String}
    (h : IsLeaf entries path value) (hsub : entries ⊆ entries') : IsLeaf entries' path value := by
  cases h with
  | here hmem hleaf => exact .here (hsub hmem) hleaf
  | inside hmem hbelow => exact .inside (hsub hmem) hbelow

theorem exists_isLeaf_of_mem_leaves {entries : List (String × Value)}
    (h : (name, value) ∈ leaves mark entries) :
    ∃ path, IsLeaf entries path value ∧ name = dotted mark path := by
  fun_induction leaves mark entries with
  | case1 => exact nomatch h
  | case2 mark key origin below rest ihbelow ihrest =>
    rcases List.mem_append.mp h with h | h
    · obtain ⟨path, hpath, rfl⟩ := ihbelow h
      exact ⟨key :: path, .inside List.mem_cons_self hpath, (dotted_cons hpath.path_ne_nil).symm⟩
    · obtain ⟨path, hpath, rfl⟩ := ihrest h
      exact ⟨path, hpath.mono (List.subset_cons_self ..), rfl⟩
  | case3 mark key leaf rest hleaf ihrest =>
    rcases List.mem_cons.mp h with h | h
    · cases h
      refine ⟨[key], .here List.mem_cons_self (isTable_eq_false hleaf), ?_⟩
      rw [dotted, String.intercalate_singleton]
    · obtain ⟨path, hpath, rfl⟩ := ihrest h
      exact ⟨path, hpath.mono (List.subset_cons_self ..), rfl⟩

/-- **The walk meets every leaf**, under its name. -/
theorem mem_leaves_iff {entries : List (String × Value)} :
    (name, value) ∈ leaves mark entries ↔
      ∃ path, IsLeaf entries path value ∧ name = dotted mark path := by
  refine ⟨exists_isLeaf_of_mem_leaves, ?_⟩
  rintro ⟨path, h, rfl⟩
  exact h.mem_leaves

end Walk

/-! ## 2. What is set last counts -/

/-- The value that a parameter was given last. -/
def last? (name : String) (set : List (String × LaunchValue)) : Option LaunchValue :=
  set.reverse.lookup name

theorem find?_setAll {name : String} {out : LaunchParams} (set : List (String × LaunchValue)) :
    (setAll out set).find? name = (last? name set).or (out.find? name) := by
  induction set generalizing out with
  | nil => rfl
  | cons s set ih =>
    obtain ⟨n, v⟩ := s
    rw [last?, List.reverse_cons, List.lookup_append, Option.or_assoc, ← last?]
    refine ih.trans (congrArg (Option.or _) ?_)
    rw [NameMap.find?_insert]
    by_cases h : name = n
    · simp [h]
    · simp [List.lookup_cons, h, beq_eq_false_iff_ne.mpr h]

theorem mem_of_last? {name : String} {v : LaunchValue} {set : List (String × LaunchValue)}
    (h : last? name set = some v) : (name, v) ∈ set := by
  obtain ⟨later, earlier, hset, -⟩ := List.lookup_eq_some_iff.mp h
  rw [← List.mem_reverse, hset]
  exact List.mem_append_right _ List.mem_cons_self

theorem exists_last? {name : String} {v : LaunchValue} {set : List (String × LaunchValue)}
    (h : (name, v) ∈ set) : ∃ v', last? name set = some v' := by
  rw [← Option.ne_none_iff_exists']
  intro hnone
  have hne := List.lookup_eq_none_iff.mp hnone _ (List.mem_reverse.mpr h)
  exact absurd rfl (bne_iff_ne.mp hne)

theorem rising_setAll {out : LaunchParams} (h : out.Rising) (set : List (String × LaunchValue)) :
    (setAll out set).Rising := by
  induction set generalizing out with
  | nil => exact h
  | cons s set ih => exact ih h.insert

/-- What is set comes from a leaf. -/
theorem mem_settings_iff {name : String} {v : LaunchValue} {ls : List (String × Value)} :
    (name, v) ∈ settings ls ↔ ∃ value, (name, value) ∈ ls ∧ launchValue? value = some v := by
  simp [settings]

theorem mem_complaints_iff {line : Log.Line} {ls : List (String × Value)} :
    line ∈ complaints ls ↔
      ∃ name value, (name, value) ∈ ls ∧ launchValue? value = none ∧
        line = unsupported name value.typeName := by
  simp [complaints, eq_comm]

/-! ## 3. Configurations that were read -/

/-- The parameters of a configuration that was read are what the leaves of its document set, and
what is said on the way includes what there is to say about those leaves. -/
theorem params_of_ofText {host : Host} {text : String} {c : Config}
    (h : (ofText host text).value = .ok c) :
    ∃ d, Document.read? text = some d ∧
      c.launchMinus = setAll [] (settings (leaves "-" d.launch.minus)) ∧
      c.launchPlus = setAll [] (settings (leaves "+" d.launch.plus)) ∧
      (ofText host text).log = (resolveSteamCmd host d.steamCmdPath).log ++
        (complaints (leaves "-" d.launch.minus) ++
          (complaints (leaves "+" d.launch.plus) ++ d.update.normalize.log)) := by
  obtain ⟨d, seed, hd, -, rfl, -, hlog⟩ := described_of_ofText h
  refine ⟨d, hd, congrArg Logged.value (flattenParams_eq ..),
    congrArg Logged.value (flattenParams_eq ..), ?_⟩
  rw [hlog, flattenParams_eq, flattenParams_eq]

/-- What is set by leaves has their mark in front. -/
theorem mark_of_mem_setAll {mark name : String} {v : LaunchValue} {entries : List (String × Value)}
    (h : (name, v) ∈ setAll [] (settings (leaves mark entries))) : ∃ rest, name = mark ++ rest := by
  rw [(rising_setAll List.Pairwise.nil _).mem_iff, find?_setAll] at h
  have hlast : last? name (settings (leaves mark entries)) = some v := by
    simpa [NameMap.find?] using h
  obtain ⟨value, hmem, -⟩ := mem_settings_iff.mp (mem_of_last? hlast)
  obtain ⟨path, -, rfl⟩ := mem_leaves_iff.mp hmem
  exact ⟨_, rfl⟩

/-- What a configuration that was read keeps: its parameters are in name order, and those with a
minus are marked as such. -/
structure LaunchSound (c : Config) : Prop where
  minus : c.launchMinus.Rising
  plus : c.launchPlus.Rising
  marked : ∀ e ∈ c.launchMinus, ∃ rest, e.1 = "-" ++ rest

theorem LaunchSound.of_ofText {host : Host} {text : String} {c : Config}
    (h : (ofText host text).value = .ok c) : c.LaunchSound := by
  obtain ⟨d, -, hminus, hplus, -⟩ := params_of_ofText h
  exact {
    minus := hminus ▸ rising_setAll List.Pairwise.nil _
    plus := hplus ▸ rising_setAll List.Pairwise.nil _
    marked := fun e he => mark_of_mem_setAll (hminus ▸ he) }

end Config

namespace LaunchSpec

/-! ## 4. The command line -/

/-- A parameter on the command line: a name, and a text if it has one. -/
structure Parameter where
  name : String
  text : Option String
  deriving DecidableEq, Repr

/-- The arguments of a parameter. -/
def Parameter.args (p : Parameter) : List String := p.name :: p.text.toList

/-- What is given of a configured parameter, unless it is switched off. -/
def given? (e : String × LaunchValue) : Option Parameter :=
  match e.2 with
  | .flag false => none
  | .flag true => some ⟨e.1, none⟩
  | .text t => some ⟨e.1, some t⟩

/-- The configured parameters that are not switched off. -/
def enabled (params : LaunchParams) : List Parameter := params.filterMap given?

/-- The configured parameters whose values this program does not decide. -/
def unmanaged (p : Passthrough) (params : LaunchParams) : LaunchParams :=
  params.filter fun e => !isManaged p e.1

/-- The parameters whose values this program decides, with these values. -/
def managed (c : Config) (seed : Int) : List Parameter :=
  [⟨"+rcon.password", some c.rcon.password⟩] ++
    (if c.rcon.passthrough.ip then [⟨"+rcon.ip", some c.rcon.ip⟩] else []) ++
    (if c.rcon.passthrough.port then [⟨"+rcon.port", some (toString c.rcon.port)⟩] else []) ++
    [⟨"+rcon.web", some "1"⟩, ⟨"+server.identity", some c.identity⟩,
      ⟨"+server.seed", some (toString seed)⟩]

/-- The parameters of a configuration, in the order of the command line. -/
def parameters (c : Config) (draw : Int) : List Parameter :=
  enabled c.launchMinus ++ enabled (unmanaged c.rcon.passthrough c.launchPlus) ++
    managed c (c.seed.select draw)

/-- What is said of a managed parameter that is left out. -/
def overridden (name : String) : Log.Line :=
  ⟨.warn, .launch, s!"Ignoring configured launch parameter `{name}` because its value is " ++
    "determined automatically"⟩

/-- What is said of the managed parameters that are left out. -/
def overrides (p : Passthrough) (params : LaunchParams) : List Log.Line :=
  params.filterMap fun e =>
    if e.2 ≠ .flag false ∧ isManaged p e.1 then some (overridden e.1) else none

theorem argsOf_eq (name : String) (value : LaunchValue) :
    argsOf name value = (given? (name, value)).toList.flatMap Parameter.args := by
  cases value with
  | flag on => cases on <;> rfl
  | text t => rfl

theorem argsOfParams_cons (name : String) (value : LaunchValue) (params : LaunchParams) :
    argsOfParams ((name, value) :: params) = argsOf name value ++ argsOfParams params := rfl

theorem argsOfParams_eq (params : LaunchParams) :
    argsOfParams params = (enabled params).flatMap Parameter.args := by
  induction params with
  | nil => rfl
  | cons e params ih =>
    obtain ⟨name, value⟩ := e
    rw [argsOfParams_cons, argsOf_eq, ih, enabled, enabled, List.filterMap_cons]
    cases given? (name, value) with
    | none => rfl
    | some parameter => simp

theorem unmanagedArgs_eq (p : Passthrough) (params : LaunchParams) :
    unmanagedArgs p params = ⟨argsOfParams (unmanaged p params), overrides p params⟩ := by
  induction params with
  | nil => rfl
  | cons e params ih =>
    obtain ⟨name, value⟩ := e
    rw [unmanagedArgs, ih]
    by_cases h : value ≠ .flag false ∧ isManaged p name
    · have hu : unmanaged p ((name, value) :: params) = unmanaged p params := by
        simp [unmanaged, h.2]
      have ho : overrides p ((name, value) :: params) = overridden name :: overrides p params := by
        simp [overrides, h]
      rw [if_pos h, hu, ho]
      rfl
    · have hu : argsOfParams (unmanaged p ((name, value) :: params)) =
          argsOf name value ++ argsOfParams (unmanaged p params) := by
        by_cases hm : isManaged p name
        · have hv : value = .flag false := by simpa [hm] using h
          simp [unmanaged, hm, hv, argsOf]
        · simp [unmanaged, hm, argsOfParams_cons]
      have ho : overrides p ((name, value) :: params) = overrides p params := by
        simp [overrides, h]
      rw [if_neg h, hu, ho]
      exact congrArg (Logged.mk _) (List.append_nil _)

theorem managedArgs_eq (c : Config) (seed : Int) :
    managedArgs c seed = (managed c seed).flatMap Parameter.args := by
  unfold managedArgs managed
  split_ifs <;> rfl

/-- **The command line is what the parameters say**, and what is left out is said. -/
theorem ofConfig_eq (c : Config) (draw : Int) :
    ofConfig c draw =
      ⟨{ program := Path.join c.installPath
           (c.server.launchBinary.getD (defaultBinary c.update.framework.kind))
         args := (parameters c draw).flatMap Parameter.args
         workingDir := c.installPath },
       overrides c.rcon.passthrough c.launchPlus⟩ := by
  rw [ofConfig, unmanagedArgs_eq, parameters, List.flatMap_append, List.flatMap_append,
    ← argsOfParams_eq, ← argsOfParams_eq, ← managedArgs_eq]
  exact congrArg (Logged.mk _) (List.append_nil _)

end LaunchSpec
end ServerWarden
