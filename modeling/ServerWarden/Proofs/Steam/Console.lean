/-
# The tree in the console's output

The update tool prints the tree of the application among other things: after a line with the quoted
number of the application comes a line with the opening brace, then the lines of the entries, each
behind a tab, and at last a line with the closing brace.  Before it there may be any lines that do
not start with that number (`IsNoise`), and after it anything.

* A brace inside the tree is indented, and so the first line that starts with a closing brace is the
  end of the tree (`appInfo?_of_lines`).  What stands inside quotes does not matter: it has no line
  break, and so it starts no line.
* What is cut out is read as the tree (`SaysAll.parse`), and it is the same text whichever noise,
  endings and empty lines there are.
* An output that stops before the closing brace has no line that starts with one after the number,
  and gives nothing (`appInfo?_of_no_brace`).
-/
import ServerWarden.Proofs.KeyValues.Layout
import ServerWarden.Steam.AppInfo

namespace ServerWarden.Steam

open Text KeyValues

/-! ## 1. Outputs -/

/-- Lines none of which starts as the application's tree does. -/
def IsNoise (cs : List Char) : Prop :=
  ∃ lines, Ended lines cs ∧ ∀ line ∈ lines, ¬ treeMark <+: line

/-- The tree up to its closing brace: the application's number, the opening brace and the lines of
the entries, each on lines of their own, with blank lines put in anywhere. -/
def IsTree (blank : List Char → Prop) (body : List (List Char)) (cs : List Char) : Prop :=
  ∃ lines, Spaced blank (['{'] :: body) lines ∧ Ended (treeMark :: lines) cs

/-- The closing brace on a line of its own, which is the last or has anything behind it. -/
def IsClose (cs : List Char) : Prop :=
  cs = ['}'] ∨ ∃ ending noise, Ending ['}'] ending ∧ cs = '}' :: (ending ++ noise)

/-- What is cut out of an output, line by line. -/
def treeText (body : List (List Char)) : String :=
  String.ofList (joined (treeMark :: (['{'] :: body ++ [['}']])))

section

variable {output : String} {noise tree cut cs : List Char} {blank : List Char → Prop}
  {before behind inner body lines lines' : List (List Char)} {closing : List Char}

/-! ## 2. Cutting by lines -/

theorem upToBrace?_append (hinner : ∀ line ∈ inner, line.head? ≠ some '}')
    (hclosing : closing.head? = some '}') (after : List (List Char)) :
    upToBrace? (inner ++ closing :: after) = some (inner ++ [closing]) := by
  induction inner with
  | nil => rw [List.nil_append, upToBrace?, if_pos hclosing]; rfl
  | cons line inner ih =>
    obtain ⟨hline, hinner⟩ := List.forall_mem_cons.mp hinner
    rw [List.cons_append, upToBrace?, if_neg hline, ih hinner]
    rfl

theorem upToBrace?_eq_none (h : ∀ line ∈ lines, line.head? ≠ some '}') :
    upToBrace? lines = none := by
  induction lines with
  | nil => rfl
  | cons line lines ih =>
    obtain ⟨hline, hlines⟩ := List.forall_mem_cons.mp h
    rw [upToBrace?, if_neg hline, ih hlines]
    rfl

/-- The lines that count: those that are not empty, from the first with the application's number. -/
def fromMark (lines : List (List Char)) : List (List Char) :=
  (lines.filter fun line => !line.isEmpty).dropWhile fun line => !treeMark.isPrefixOf line

theorem appInfo?_eq (output : String) :
    appInfo? output = match fromMark (lineChars output.toList) with
      | [] => none
      | first :: rest => (upToBrace? rest).map fun body => String.ofList (joined (first :: body)) :=
  rfl

theorem fromMark_append (hbefore : ∀ line ∈ before, ¬ treeMark <+: line) :
    fromMark (before ++ behind) = fromMark behind := by
  rw [fromMark, List.filter_append, List.dropWhile_append_of_pos]
  · rfl
  · intro line hline
    have hnone : treeMark.isPrefixOf line = false :=
      Bool.eq_false_iff.mpr (mt List.isPrefixOf_iff_prefix.mp
        (hbefore line (List.mem_of_mem_filter hline)))
    rw [hnone]
    rfl

theorem fromMark_cons (behind : List (List Char)) :
    fromMark (treeMark :: behind) = treeMark :: behind.filter fun line => !line.isEmpty := by
  have hmark : treeMark.isPrefixOf treeMark = true := List.isPrefixOf_iff_prefix.mpr List.prefix_rfl
  rw [fromMark, List.filter_cons_of_pos (by decide +kernel),
    List.dropWhile_cons_of_neg (by simp [hmark])]

/-- **The tree ends at the first line that starts with a closing brace.** -/
theorem appInfo?_of_lines
    (hlines : lineChars output.toList = before ++ treeMark :: (inner ++ closing :: behind))
    (hbefore : ∀ line ∈ before, ¬ treeMark <+: line)
    (hinner : ∀ line ∈ inner, line.head? ≠ some '}') (hclosing : closing.head? = some '}') :
    appInfo? output = some (String.ofList
      (joined (treeMark :: ((inner.filter fun line => !line.isEmpty) ++ [closing])))) := by
  have hne : closing ≠ [] := by
    rintro rfl
    exact nomatch hclosing
  have hkept : ∀ line ∈ inner.filter fun line => !line.isEmpty, line.head? ≠ some '}' :=
    fun line hline => hinner line (List.mem_of_mem_filter hline)
  rw [appInfo?_eq, hlines, fromMark_append hbefore, fromMark_cons, List.filter_append,
    List.filter_cons_of_pos (by simpa using hne)]
  show (upToBrace? _).map _ = _
  rw [upToBrace?_append hkept hclosing]
  rfl

/-- **Without a line that starts with a closing brace there is no tree.** -/
theorem appInfo?_of_no_brace (hlines : lineChars output.toList = before ++ behind)
    (hbefore : ∀ line ∈ before, ¬ treeMark <+: line)
    (hbehind : ∀ line ∈ behind, line.head? ≠ some '}') : appInfo? output = none := by
  have hsome : ∀ line ∈ fromMark behind, line.head? ≠ some '}' := fun line hline =>
    hbehind line (List.mem_of_mem_filter ((List.dropWhile_sublist _).subset hline))
  rw [appInfo?_eq, hlines, fromMark_append hbefore]
  cases hfrom : fromMark behind with
  | nil => rfl
  | cons first rest =>
    rw [hfrom] at hsome
    show (upToBrace? rest).map _ = none
    rw [upToBrace?_eq_none (List.forall_mem_cons.mp hsome).2]
    rfl

/-! ## 3. Whole and cut outputs -/

theorem IsClose.lineChars (h : IsClose cs) : ∃ behind, lineChars cs = ['}'] :: behind := by
  rcases h with rfl | ⟨ending, noise, hending, rfl⟩
  · exact ⟨[], rfl⟩
  · have hclose : Ended [['}']] (['}'] ++ (ending ++ [])) := .cons (by decide) hending .nil
    exact ⟨Text.lineChars noise, by simpa using hclose.lineChars_append noise⟩

/-- The lines of a tree do not start with a closing brace. -/
theorem not_brace_of_spaced (hbody : ∀ line ∈ body, line.head? = some '\t')
    (hspaced : Spaced IsBlankLine (['{'] :: body) lines) :
    ∀ line ∈ lines, line.head? ≠ some '}' := by
  intro line hline hbrace
  rcases hspaced.mem hline with hline | hblank
  · rcases List.mem_cons.mp hline with rfl | hline
    · exact absurd hbrace (by decide)
    · rw [hbody line hline] at hbrace
      exact absurd hbrace (by decide)
  · obtain ⟨rest, rfl⟩ := List.head?_eq_some_iff.mp hbrace
    exact absurd (hblank.blank '}' List.mem_cons_self) (by decide)

theorem isBlankLine_of_empty (line : List Char) (h : line = []) : IsBlankLine line := by
  subst h
  exact ⟨List.forall_mem_nil _, List.not_mem_nil⟩

theorem IsTree.loose (h : IsTree (· = []) body tree) : IsTree IsBlankLine body tree := by
  obtain ⟨lines, hspaced, hended⟩ := h
  exact ⟨lines, hspaced.mono isBlankLine_of_empty, hended⟩

theorem not_mark_of_cut (hnoise : IsNoise noise) (hcut : cut <+: noise) :
    ∀ line ∈ lineChars cut, ¬ treeMark <+: line := by
  obtain ⟨lines, hended, hlines⟩ := hnoise
  intro line hline hmark
  obtain ⟨whole, hwhole, hstart⟩ :=
    hended.starts_of_cut hcut (by decide +kernel) line hline hmark
  exact hlines whole hwhole hstart

/-- No line of a tree that is cut off starts with a closing brace. -/
theorem not_brace_of_cut (hbody : ∀ line ∈ body, line.head? = some '\t')
    (htree : IsTree IsBlankLine body tree) (hcut : cut <+: tree) :
    ∀ line ∈ lineChars cut, line.head? ≠ some '}' := by
  obtain ⟨lines, hspaced, hended⟩ := htree
  intro line hline hbrace
  have hstart : ['}'] <+: line := by
    obtain ⟨rest, rfl⟩ := List.head?_eq_some_iff.mp hbrace
    simp
  obtain ⟨whole, hwhole, hstart⟩ := hended.starts_of_cut hcut (by decide) line hline hstart
  obtain ⟨rest, rfl⟩ := hstart
  rcases List.mem_cons.mp hwhole with hmark | hwhole
  · have hhead := congrArg List.head? hmark
    simp [treeMark] at hhead
  · exact not_brace_of_spaced hbody hspaced _ hwhole rfl

/-- A whole tree is cut out without its empty lines. -/
theorem appInfo?_of_tree (hbody : ∀ line ∈ body, line.head? = some '\t') (hnoise : IsNoise noise)
    (hspaced : Spaced IsBlankLine (['{'] :: body) lines) (hended : Ended (treeMark :: lines) tree)
    (hclose : IsClose cs) : appInfo? (String.ofList (noise ++ (tree ++ cs)))
      = some (String.ofList
          (joined (treeMark :: ((lines.filter fun line => !line.isEmpty) ++ [['}']])))) := by
  obtain ⟨noiseLines, hnoise, hmark⟩ := hnoise
  obtain ⟨behind, hclose⟩ := hclose.lineChars
  have hlines : lineChars (String.ofList (noise ++ (tree ++ cs))).toList
      = noiseLines ++ treeMark :: (lines ++ ['}'] :: behind) := by
    rw [String.toList_ofList, hnoise.lineChars_append, hended.lineChars_append, hclose,
      List.cons_append]
  exact appInfo?_of_lines hlines hmark (not_brace_of_spaced hbody hspaced) rfl

/-- Behind noise there must be a line that starts with a closing brace. -/
theorem appInfo?_of_no_close (hnoise : IsNoise noise)
    (hbrace : ∀ line ∈ lineChars cs, line.head? ≠ some '}') :
    appInfo? (String.ofList (noise ++ cs)) = none := by
  obtain ⟨noiseLines, hnoise, hmark⟩ := hnoise
  refine appInfo?_of_no_brace ?_ hmark hbrace
  rw [String.toList_ofList, hnoise.lineChars_append]

theorem appInfo?_of_cut_noise (hnoise : IsNoise noise) (hcut : cut <+: noise) :
    appInfo? (String.ofList cut) = none := by
  have hlines : lineChars (String.ofList cut).toList = lineChars cut ++ [] := by
    rw [String.toList_ofList, List.append_nil]
  exact appInfo?_of_no_brace hlines (not_mark_of_cut hnoise hcut) nofun

/-- What the lines of the application's tree say, with any blank lines among them. -/
theorem says_tree {entries : KeyValues} (hbody : LaidOut entries body)
    (hspaced : Spaced IsBlankLine (['{'] :: body) lines) :
    SaysAll (treeMark :: (lines ++ [['}']])) (KeyValues.signs [(appId, .block entries)]) := by
  have hid : Enclosed appId.toList appId.toList :=
    enclosed_self (by decide +kernel) (by decide +kernel)
  have hmark : Says treeMark [.word appId.toList] := (Form.quoted hid).alone
  have hopen : Says ['{'] [.opens] := Form.opens.alone
  have hclose : Says ['}'] [.closes] := Form.closes.alone
  have hlines : SaysAll lines (.opens :: KeyValues.signs entries) :=
    (SaysAll.cons hopen hbody.saysAll).spaced hspaced
  have hsigns : KeyValues.signs [(appId, .block entries)]
      = [.word appId.toList] ++ (.opens :: KeyValues.signs entries ++ [.closes]) := by
    simp [KeyValue.signs, KeyValues.signs, KeyValue.signs.ofEntries]
  rw [hsigns]
  exact .cons hmark (hlines.append (.cons hclose .nil))

end

/-! ## 4. The tree is recovered -/

/-- What becomes of the lines of a tree in any output. -/
structure Recovers (entries : KeyValues) (body : List (List Char)) : Prop where
  /-- They can be printed. -/
  printed : ∃ tree, IsTree (· = []) body tree
  /-- They are read as the tree. -/
  read : parse (treeText body) = .ok [(appId, .block entries)]
  /-- They are cut out of every output, whatever noise, endings and empty lines there are. -/
  whole : ∀ noise tree close, IsNoise noise → IsTree (· = []) body tree → IsClose close →
    appInfo? (String.ofList (noise ++ (tree ++ close))) = some (treeText body)
  /-- With blank lines that are not empty, what is cut out is still read as the tree. -/
  blank : ∀ noise tree close, IsNoise noise → IsTree IsBlankLine body tree → IsClose close →
    ∃ info, appInfo? (String.ofList (noise ++ (tree ++ close))) = some info ∧
      parse info = .ok [(appId, .block entries)]
  /-- An output that stops before the closing brace gives nothing. -/
  cut : ∀ noise tree cut, IsNoise noise → IsTree IsBlankLine body tree → cut <+: noise ++ tree →
    appInfo? (String.ofList cut) = none
  /-- An output gives nothing either if no line behind the noise starts with a closing brace, as
  when a tree is cut off and other lines come after it. -/
  unclosed : ∀ noise rest, IsNoise noise → (∀ line ∈ lineChars rest, line.head? ≠ some '}') →
    appInfo? (String.ofList (noise ++ rest)) = none

/-- **The application's tree is recovered from any output** that holds it whole, and from no output
that holds less. -/
theorem appInfo?_recovers {entries : KeyValues} (hunbroken : Unbroken entries) :
    (∃ body, LaidOut entries body) ∧ ∀ body, LaidOut entries body → Recovers entries body := by
  refine ⟨exists_laidOut entries, fun body hbody => ?_⟩
  have hne : ∀ line ∈ ['{'] :: body, line ≠ [] :=
    List.forall_mem_cons.mpr ⟨List.cons_ne_nil _ _, hbody.ne_nil⟩
  constructor
  case printed =>
    have hfeed : ∀ line ∈ treeMark :: ['{'] :: body, '\n' ∉ line := by
      simp only [List.forall_mem_cons]
      exact ⟨by decide +kernel, by decide, hbody.no_feed hunbroken⟩
    obtain ⟨tree, hended⟩ := exists_ended hfeed
    exact ⟨tree, _, .refl _, hended⟩
  case read =>
    exact (says_tree hbody (.refl _)).parse
  case whole =>
    rintro noise tree close hnoise ⟨lines, hspaced, hended⟩ hclose
    rw [appInfo?_of_tree hbody.tab hnoise (hspaced.mono isBlankLine_of_empty) hended hclose,
      hspaced.filter_eq hne]
    rfl
  case blank =>
    rintro noise tree close hnoise ⟨lines, hspaced, hended⟩ hclose
    exact ⟨_, appInfo?_of_tree hbody.tab hnoise hspaced hended hclose,
      (says_tree hbody (hspaced.filter hne)).parse⟩
  case cut =>
    intro noise tree cut hnoise htree hcut
    rcases List.prefix_or_prefix_of_prefix hcut (List.prefix_append noise tree) with h | ⟨cut', rfl⟩
    · exact appInfo?_of_cut_noise hnoise h
    · have hcut' : cut' <+: tree := by simpa using hcut
      exact appInfo?_of_no_close hnoise (not_brace_of_cut hbody.tab htree hcut')
  case unclosed => exact fun noise rest hnoise hbrace => appInfo?_of_no_close hnoise hbrace

/-- A block whose strings look like what surrounds the tree. -/
def trickyBlock : KeyValues := [("\x7d", .block [("258550", .text "\x7b")])]

/-- Its lines. -/
def trickyBody : List (List Char) :=
  ["\t\"\x7d\"".toList, "\t\x7b".toList, "\t\t\"258550\"\t\t\"\x7b\"".toList, "\t\x7d".toList]

/-- The lines with both endings, and with an empty line among them. -/
def trickyTree : List Char :=
  "\"258550\"\r\n\n\x7b\n\t\"\x7d\"\r\n\t\x7b\n\t\t\"258550\"\t\t\"\x7b\"\n\t\x7d\r\n".toList

theorem trickyBlock_laidOut : LaidOut trickyBlock trickyBody := by
  have tabs (count : Nat) (h : count ≠ 0) : Indent (List.replicate count '\t') := by
    refine ⟨⟨?_, ?_⟩, ?_⟩
    · intro c hc
      rw [List.eq_of_mem_replicate hc]
      decide
    · intro hc
      exact absurd (List.eq_of_mem_replicate hc) (by decide)
    · rw [List.head?_replicate, if_neg h]
  have self (word : String) (h : '"' ∉ word.toList ∧ '\\' ∉ word.toList) :
      Enclosed word.toList word.toList := enclosed_self h.1 h.2
  exact .block (tabs 1 nofun) (self "\x7d" (by decide +kernel)) (tabs 1 nofun)
    (.text (tabs 2 nofun) (self "258550" (by decide +kernel)) (tabs 2 nofun).toIsBlankLine
      (self "\x7b" (by decide +kernel)) .nil)
    (tabs 1 nofun) .nil

theorem trickyTree_isTree : IsTree (· = []) trickyBody trickyTree := by
  refine ⟨[] :: ['{'] :: trickyBody, .insert rfl (.refl _), ?_⟩
  exact .cons (by decide +kernel) .returnFeed <| .cons (by decide +kernel) (.feed (by decide)) <|
    .cons (by decide +kernel) (.feed (by decide)) <| .cons (by decide +kernel) .returnFeed <|
    .cons (by decide +kernel) (.feed (by decide +kernel)) <|
    .cons (by decide +kernel) (.feed (by decide +kernel)) <|
    .cons (by decide +kernel) .returnFeed .nil

/-- Between two lines with closing braces the tree is cut out, and without the last of them nothing
is. -/
theorem appInfo?_recovers_tricky : Unbroken trickyBlock ∧ LaidOut trickyBlock trickyBody ∧
    appInfo? (String.ofList (['}', '\n'] ++ (trickyTree ++ ['}']))) = some (treeText trickyBody) ∧
    parse (treeText trickyBody) = .ok [(appId, .block trickyBlock)] ∧
    appInfo? (String.ofList (['}', '\n'] ++ trickyTree)) = none := by
  have hunbroken : Unbroken trickyBlock := by
    have hall : ∀ sign ∈ KeyValues.signs trickyBlock, ∀ word, sign = .word word → '\n' ∉ word := by
      have hsigns : KeyValues.signs trickyBlock = [.word ['}'], .opens,
          .word ['2', '5', '8', '5', '5', '0'], .word ['{'], .closes] := by decide +kernel
      rw [hsigns]
      simp
    exact fun word hword => hall _ hword word rfl
  have hnoise : IsNoise ['}', '\n'] :=
    ⟨[['}']], .cons (by decide) (.feed (by decide)) .nil, by decide +kernel⟩
  have hrecovers := (appInfo?_recovers hunbroken).2 trickyBody trickyBlock_laidOut
  exact ⟨hunbroken, trickyBlock_laidOut,
    hrecovers.whole _ _ _ hnoise trickyTree_isTree (.inl rfl), hrecovers.read,
    hrecovers.cut _ _ _ hnoise trickyTree_isTree.loose List.prefix_rfl⟩

end ServerWarden.Steam
