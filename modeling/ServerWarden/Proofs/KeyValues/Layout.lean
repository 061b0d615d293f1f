/-
# Trees over lines

The update tool prints a tree line by line: an entry with a text is one line, an entry with a block
is a line with its key, a line with the opening brace, the lines of the block and a line with the
closing brace.  Each line starts with a tab, and keys and texts are in quotes (`LaidOut`).

If no key and no text of the tree holds a newline, the lines hold none either, and a line can be
told by how it starts.  Each line says its own tokens, whatever comes before and after it (`Says`);
so blank lines may be put in anywhere, and the lines together say what the tree says.
-/
import ServerWarden.Proofs.KeyValues.Acceptance
import ServerWarden.Proofs.Text.Lines

namespace ServerWarden.KeyValues

/-! ## 1. Lines of a tree -/

/-- No key and no text has a line break. -/
def Unbroken (tree : KeyValues) : Prop := ∀ word, .word word ∈ signs tree → '\n' ∉ word

/-- Blanks that stay on their line. -/
structure IsBlankLine (cs : List Char) : Prop where
  blank : ∀ c ∈ cs, Text.isBlank c = true
  no_feed : '\n' ∉ cs

/-- What a line starts with: a tab, and any more blanks. -/
structure Indent (cs : List Char) : Prop extends IsBlankLine cs where
  tab : cs.head? = some '\t'

def inQuotes (body : List Char) : List Char := '"' :: (body ++ ['"'])

/-- `LaidOut entries lines`: the lines of a list of entries. -/
inductive LaidOut : KeyValues → List (List Char) → Prop where
  | nil : LaidOut [] []
  | text {key text : String} {entries : KeyValues} {indent body between body' : List Char}
      {lines : List (List Char)} :
      Indent indent → Enclosed key.toList body → IsBlankLine between →
      Enclosed text.toList body' → LaidOut entries lines →
      LaidOut ((key, .text text) :: entries)
        ((indent ++ (inQuotes body ++ (between ++ inQuotes body'))) :: lines)
  | block {key : String} {below entries : KeyValues} {indent body indent' indent'' : List Char}
      {inner lines : List (List Char)} :
      Indent indent → Enclosed key.toList body → Indent indent' → LaidOut below inner →
      Indent indent'' → LaidOut entries lines →
      LaidOut ((key, .block below) :: entries)
        ((indent ++ inQuotes body) :: (indent' ++ ['{']) :: (inner ++ (indent'' ++ ['}']) :: lines))

/-- The text of lines with a line feed behind each. -/
def joined (lines : List (List Char)) : List Char := lines.flatMap (· ++ ['\n'])

section

variable {tree entries : KeyValues} {line cs gap body word rest : List Char}
  {lines lines' : List (List Char)} {sign : Sign} {signs : List Sign}

/-! ## 2. What the lines look like -/

theorem Enclosed.no_feed (h : Enclosed word body) (hword : '\n' ∉ word) : '\n' ∉ body := by
  induction h with
  | nil => exact hword
  | plain _ _ _ ih =>
    rw [List.mem_cons, not_or] at hword ⊢
    exact ⟨hword.1, ih hword.2⟩
  | @escaped c word body _ ih =>
    rw [List.mem_cons, not_or] at hword
    have hc : '\n' ≠ c := by
      rintro rfl
      exact hword.1 rfl
    simp [hc, ih hword.2]

/-- A word without quotes and backslashes stands for itself. -/
theorem enclosed_self (hquote : '"' ∉ word) (hslash : '\\' ∉ word) : Enclosed word word := by
  induction word with
  | nil => exact .nil
  | cons c word ih =>
    rw [List.mem_cons, not_or] at hquote hslash
    exact .plain (Ne.symm hquote.1) (Ne.symm hslash.1) (ih hquote.2 hslash.2)

theorem inQuotes_no_feed (h : Enclosed word body) (hword : '\n' ∉ word) :
    '\n' ∉ inQuotes body := by
  simp [inQuotes, h.no_feed hword]

theorem Indent.head?_append (h : Indent cs) (rest : List Char) :
    (cs ++ rest).head? = some '\t' := by
  rw [List.head?_append, h.tab]
  rfl

/-- **Each line of a tree starts with a tab.** -/
theorem LaidOut.tab (h : LaidOut entries lines) : ∀ line ∈ lines, line.head? = some '\t' := by
  induction h with
  | nil => exact nofun
  | text hindent _ _ _ _ ih => exact List.forall_mem_cons.mpr ⟨hindent.head?_append _, ih⟩
  | block hindent _ hindent' _ hindent'' _ ihbelow ih =>
    simp only [List.forall_mem_cons, List.forall_mem_append]
    exact ⟨hindent.head?_append _, hindent'.head?_append _, ihbelow, hindent''.head?_append _, ih⟩

theorem LaidOut.ne_nil (h : LaidOut entries lines) : ∀ line ∈ lines, line ≠ [] := by
  intro line hline hnil
  have htab := h.tab line hline
  rw [hnil] at htab
  exact nomatch htab

theorem signs_cons (key : String) (value : KeyValue) (entries : KeyValues) :
    KeyValues.signs ((key, value) :: entries)
      = .word key.toList :: (value.signs ++ KeyValues.signs entries) := rfl

theorem Unbroken.cons {key : String} {value : KeyValue} (h : Unbroken ((key, value) :: entries)) :
    '\n' ∉ key.toList ∧ (∀ word, .word word ∈ value.signs → '\n' ∉ word) ∧ Unbroken entries := by
  refine ⟨h _ ?_, fun word hword => h word ?_, fun word hword => h word ?_⟩ <;> rw [signs_cons]
  · exact List.mem_cons_self
  · exact List.mem_cons_of_mem _ (List.mem_append_left _ hword)
  · exact List.mem_cons_of_mem _ (List.mem_append_right _ hword)

/-- **No line of a tree has a line break**, if none of its strings has. -/
theorem LaidOut.no_feed (h : LaidOut entries lines) (hunbroken : Unbroken entries) :
    ∀ line ∈ lines, '\n' ∉ line := by
  induction h with
  | nil => exact nofun
  | text hindent hbody hbetween hbody' _ ih =>
    obtain ⟨hkey, htext, hentries⟩ := hunbroken.cons
    refine List.forall_mem_cons.mpr ⟨?_, ih hentries⟩
    simp only [List.mem_append, not_or]
    exact ⟨hindent.no_feed, inQuotes_no_feed hbody hkey, hbetween.no_feed,
      inQuotes_no_feed hbody' (htext _ List.mem_cons_self)⟩
  | block hindent hbody hindent' _ hindent'' _ ihbelow ih =>
    obtain ⟨hkey, hblock, hentries⟩ := hunbroken.cons
    have hbelow : Unbroken _ := fun word hword =>
      hblock word (List.mem_cons_of_mem _ (List.mem_append_left _ hword))
    simp only [List.forall_mem_cons, List.forall_mem_append]
    refine ⟨?_, ?_, ihbelow hbelow, ?_, ih hentries⟩
    · simp [hindent.no_feed, inQuotes_no_feed hbody hkey]
    · simp [hindent'.no_feed]
    · simp [hindent''.no_feed]

/-! ## 3. What the lines say -/

/-- A line says its tokens in front of whatever is well formed. -/
def Says (line : List Char) (signs : List Sign) : Prop :=
  ∀ signs' rest, WellFormed false signs' rest →
    WellFormed false (signs ++ signs') (line ++ '\n' :: rest)

/-- Lines that say their tokens one after the other. -/
inductive SaysAll : List (List Char) → List Sign → Prop where
  | nil : SaysAll [] []
  | cons {line : List Char} {lines : List (List Char)} {signs signs' : List Sign} :
      Says line signs → SaysAll lines signs' → SaysAll (line :: lines) (signs ++ signs')

theorem gap_of_blank (h : ∀ c ∈ cs, Text.isBlank c = true) : Gap cs := by
  induction cs with
  | nil => exact .nil
  | cons c cs ih =>
    obtain ⟨hc, hcs⟩ := List.forall_mem_cons.mp h
    exact .blank hc (ih hcs)

theorem newline_gap : Gap ['\n'] := .blank (by decide) .nil

/-- A token by itself, behind blanks, is what a line may say. -/
theorem Form.indented (h : Form sign false cs) (hgap : ∀ c ∈ gap, Text.isBlank c = true) :
    Says (gap ++ cs) [sign] := by
  intro signs' rest hrest
  rw [List.append_assoc]
  exact .token (gap_of_blank hgap) h nofun (hrest.prepend_gap newline_gap)

theorem Form.alone (h : Form sign false cs) : Says cs [sign] := by
  have hsays : Says ([] ++ cs) [sign] := h.indented (List.forall_mem_nil _)
  exact hsays

theorem says_nothing (h : ∀ c ∈ cs, Text.isBlank c = true) : Says cs [] := by
  intro signs' rest hrest
  exact (hrest.prepend_gap newline_gap).prepend_gap (gap_of_blank h)

/-- A token in front of a line that says more. -/
theorem Form.before (h : Form sign false cs) (hgap : ∀ c ∈ gap, Text.isBlank c = true)
    (hline : Says line signs) : Says (gap ++ (cs ++ line)) (sign :: signs) := by
  intro signs' rest hrest
  rw [List.append_assoc, List.append_assoc]
  exact .token (gap_of_blank hgap) h nofun (hline signs' rest hrest)

theorem SaysAll.append {signs' : List Sign} (h : SaysAll lines signs) (h' : SaysAll lines' signs') :
    SaysAll (lines ++ lines') (signs ++ signs') := by
  induction h with
  | nil => exact h'
  | cons hline _ ih =>
    rw [List.append_assoc]
    exact .cons hline ih

/-- **The lines of a tree say what the tree says.** -/
theorem LaidOut.saysAll (h : LaidOut entries lines) : SaysAll lines (KeyValues.signs entries) := by
  induction h with
  | nil => exact .nil
  | text hindent hkey hbetween htext _ ih =>
    exact .cons
      ((Form.quoted hkey).before hindent.blank ((Form.quoted htext).indented hbetween.blank)) ih
  | @block key below entries indent body indent' indent'' inner lines hindent hkey hindent' _
      hindent'' _ ihbelow ih =>
    have hblock : SaysAll (inner ++ (indent'' ++ ['}']) :: lines)
        (KeyValues.signs below ++ (.closes :: KeyValues.signs entries)) :=
      ihbelow.append (.cons (Form.closes.indented hindent''.blank) ih)
    have hsigns : KeyValues.signs ((key, .block below) :: entries)
        = [.word key.toList] ++
          ([.opens] ++ (KeyValues.signs below ++ (.closes :: KeyValues.signs entries))) := by
      simp [KeyValues.signs, KeyValue.signs.ofEntries, KeyValue.signs]
    rw [hsigns]
    exact .cons ((Form.quoted hkey).indented hindent.blank)
      (.cons (Form.opens.indented hindent'.blank) hblock)

/-- Blank lines say nothing. -/
theorem SaysAll.spaced (h : SaysAll lines signs) (hspaced : Text.Spaced IsBlankLine lines lines') :
    SaysAll lines' signs := by
  induction hspaced generalizing signs with
  | nil => exact h
  | keep _ ih =>
    cases h with
    | cons hline h => exact .cons hline (ih h)
  | insert hblank _ ih => exact .cons (says_nothing hblank.blank) (ih h)

theorem SaysAll.wellFormed (h : SaysAll lines signs) : WellFormed false signs (joined lines) := by
  induction h with
  | nil => exact .finish .nil .none nofun
  | @cons line lines signs signs' hline _ ih =>
    have htext : joined (line :: lines) = line ++ '\n' :: joined lines := by
      simp [joined]
    rw [htext]
    exact hline signs' _ ih

/-- **Lines that say what a tree says are read as that tree.** -/
theorem SaysAll.parse (h : SaysAll lines (KeyValues.signs tree)) :
    parse (String.ofList (joined lines)) = .ok tree := by
  obtain ⟨ts, hts, hsigns⟩ := h.wellFormed.tokensFrom 1 (.inl rfl)
  refine parse_of_tokens ?_ hsigns
  rwa [String.toList_ofList, tokens, ← List.append_nil (joined lines)]

end

/-! ## 4. Every tree has lines -/

theorem exists_enclosed (word : List Char) : ∃ body, Enclosed word body :=
  (exists_quoted word).imp fun _ h => h.enclosed

theorem indent_tab : Indent ['\t'] where
  blank := List.forall_mem_singleton.mpr (by decide)
  no_feed := by decide
  tab := rfl

theorem exists_laidOut : ∀ entries : KeyValues, ∃ lines, LaidOut entries lines
  | [] => ⟨[], .nil⟩
  | (key, .text text) :: entries => by
    obtain ⟨body, hkey⟩ := exists_enclosed key.toList
    obtain ⟨body', htext⟩ := exists_enclosed text.toList
    obtain ⟨lines, hlines⟩ := exists_laidOut entries
    exact ⟨_, .text indent_tab hkey indent_tab.toIsBlankLine htext hlines⟩
  | (key, .block below) :: entries => by
    obtain ⟨body, hkey⟩ := exists_enclosed key.toList
    obtain ⟨inner, hinner⟩ := exists_laidOut below
    obtain ⟨lines, hlines⟩ := exists_laidOut entries
    exact ⟨_, .block indent_tab hkey indent_tab hinner indent_tab hlines⟩

end ServerWarden.KeyValues
