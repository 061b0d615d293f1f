/-
# Lines and their endings

`Ended` puts lines into a text, each with an ending of its own: a line feed, or a carriage return
and a line feed.  What is read back are the lines (`Ended.lineChars_append`), whichever ending each
of them has.  A text that is cut off somewhere has the lines up to the cut and the start of one more
(`Ended.line_of_cut`).  `Spaced` puts blank lines between lines.
-/
import Mathlib.Data.List.Basic
import ServerWarden.Text.Line

namespace ServerWarden.Text

/-- What may end a line.  A carriage return in front of a line feed is never the line's own. -/
inductive Ending (line : List Char) : List Char → Prop where
  | feed : line.getLast? ≠ some '\r' → Ending line ['\n']
  | returnFeed : Ending line ['\r', '\n']

/-- `Ended lines cs`: the text of lines, each with an ending. -/
inductive Ended : List (List Char) → List Char → Prop where
  | nil : Ended [] []
  | cons {line ending rest : List Char} {lines : List (List Char)} : '\n' ∉ line →
      Ending line ending → Ended lines rest → Ended (line :: lines) (line ++ (ending ++ rest))

/-- `Spaced blank lines lines'`: `lines'` is `lines` with `blank` lines put in anywhere. -/
inductive Spaced (blank : List Char → Prop) : List (List Char) → List (List Char) → Prop where
  | nil : Spaced blank [] []
  | keep {line : List Char} {lines lines' : List (List Char)} :
      Spaced blank lines lines' → Spaced blank (line :: lines) (line :: lines')
  | insert {line : List Char} {lines lines' : List (List Char)} : blank line →
      Spaced blank lines lines' → Spaced blank lines (line :: lines')

section

variable {seen line rest ending cs cut : List Char} {lines lines' : List (List Char)}
  {blank : List Char → Prop}

/-! ## 1. Reading lines -/

theorem linesFrom_feed (h : '\n' ∉ line) :
    linesFrom seen (line ++ '\n' :: rest)
      = dropReturn (seen.reverse ++ line) :: lineChars rest := by
  induction line generalizing seen with
  | nil => simp [linesFrom, lineChars]
  | cons c line ih =>
    rw [List.mem_cons, not_or] at h
    rw [List.cons_append, linesFrom, if_neg (Ne.symm h.1), ih h.2]
    simp

theorem lineChars_feed (h : '\n' ∉ line) :
    lineChars (line ++ '\n' :: rest) = dropReturn line :: lineChars rest := linesFrom_feed h

/-- What no line feed ends is one line, unless it is empty. -/
theorem lineChars_of_no_feed (h : '\n' ∉ line) :
    lineChars line = if line = [] then [] else [line] := by
  have hfrom : ∀ seen, '\n' ∉ line → linesFrom seen line
      = if seen.reverse ++ line = [] then [] else [seen.reverse ++ line] := by
    clear h
    induction line with
    | nil => intro seen _; simp [linesFrom]
    | cons c line ih =>
      intro seen h
      rw [List.mem_cons, not_or] at h
      rw [linesFrom, if_neg (Ne.symm h.1), ih _ h.2]
      simp
  exact hfrom [] h

/-- A line with its ending is a stretch without line feeds and then a line feed. -/
theorem Ending.stretch (h : Ending line ending) (hline : '\n' ∉ line) :
    ∃ stretch, (∀ rest, line ++ (ending ++ rest) = stretch ++ '\n' :: rest) ∧ '\n' ∉ stretch ∧
      stretch <+: line ++ ['\r'] ∧ dropReturn stretch = line := by
  cases h with
  | feed hlast =>
    refine ⟨line, fun _ => rfl, hline, List.prefix_append .., ?_⟩
    rw [dropReturn]
    split
    · next h => exact absurd h hlast
    · rfl
  | returnFeed =>
    refine ⟨line ++ ['\r'], fun rest => by simp, by simp [hline], List.prefix_rfl, ?_⟩
    rw [dropReturn, List.getLast?_concat]
    exact List.dropLast_concat

/-- **Lines are read back**, in front of any text. -/
theorem Ended.lineChars_append (h : Ended lines cs) (rest : List Char) :
    lineChars (cs ++ rest) = lines ++ lineChars rest := by
  induction h with
  | nil => rfl
  | cons hline hending _ ih =>
    obtain ⟨stretch, htext, hfeed, -, hread⟩ := hending.stretch hline
    rw [List.append_assoc, List.append_assoc, htext, lineChars_feed hfeed, hread, ih,
      List.cons_append]

/-- **Each line of a cut text is the start of a line of the whole**, up to the carriage return of an
ending that the cut goes through. -/
theorem Ended.line_of_cut (h : Ended lines cs) (hcut : cut <+: cs) :
    ∀ l ∈ lineChars cut, ∃ line ∈ lines, l <+: line ++ ['\r'] := by
  induction h generalizing cut with
  | nil =>
    rw [List.prefix_nil.mp hcut]
    exact nofun
  | @cons line ending rest lines hline hending _ ih =>
    obtain ⟨stretch, htext, hfeed, hstretch, hread⟩ := hending.stretch hline
    rw [htext] at hcut
    intro l hl
    have hwhole : stretch ++ ['\n'] <+: stretch ++ '\n' :: rest := by simp
    have inside (h : cut <+: stretch) : ∃ line' ∈ line :: lines, l <+: line' ++ ['\r'] := by
      rw [lineChars_of_no_feed fun hmem => hfeed (h.mem hmem)] at hl
      split at hl
      · exact nomatch hl
      · obtain rfl := List.mem_singleton.mp hl
        exact ⟨line, List.mem_cons_self, h.trans hstretch⟩
    have beyond (h : stretch ++ ['\n'] <+: cut) :
        ∃ line' ∈ line :: lines, l <+: line' ++ ['\r'] := by
      obtain ⟨cut', rfl⟩ := h
      rw [List.append_assoc, List.singleton_append] at hcut hl
      rw [lineChars_feed hfeed, hread] at hl
      rcases List.mem_cons.mp hl with rfl | hl
      · exact ⟨l, List.mem_cons_self, List.prefix_append ..⟩
      · have hcut' : cut' <+: rest := by simpa using hcut
        obtain ⟨line', hmem, hprefix⟩ := ih hcut' l hl
        exact ⟨line', List.mem_cons_of_mem line hmem, hprefix⟩
    rcases List.prefix_or_prefix_of_prefix hcut hwhole with h | h
    · rcases List.prefix_concat_iff.mp h with rfl | h
      · exact beyond List.prefix_rfl
      · exact inside h
    · exact beyond h

/-- What a line of a cut text starts with, a line of the whole starts with. -/
theorem Ended.starts_of_cut {start : List Char} (h : Ended lines cs) (hcut : cut <+: cs)
    (hreturn : '\r' ∉ start) :
    ∀ l ∈ lineChars cut, start <+: l → ∃ line ∈ lines, start <+: line := by
  intro l hl hstart
  obtain ⟨line, hline, hprefix⟩ := h.line_of_cut hcut l hl
  refine ⟨line, hline, ?_⟩
  rcases List.prefix_concat_iff.mp (hstart.trans hprefix) with rfl | h
  · exact absurd (by simp) hreturn
  · exact h

/-- Lines without line breaks can be ended. -/
theorem exists_ended (h : ∀ line ∈ lines, '\n' ∉ line) : ∃ cs, Ended lines cs := by
  induction lines with
  | nil => exact ⟨[], .nil⟩
  | cons line lines ih =>
    obtain ⟨hline, hlines⟩ := List.forall_mem_cons.mp h
    obtain ⟨cs, hcs⟩ := ih hlines
    exact ⟨_, .cons hline .returnFeed hcs⟩

/-! ## 2. Blank lines -/

theorem Spaced.mem (h : Spaced blank lines lines') {line : List Char} (hline : line ∈ lines') :
    line ∈ lines ∨ blank line := by
  induction h with
  | nil => exact .inl hline
  | keep _ ih =>
    rcases List.mem_cons.mp hline with rfl | hline
    · exact .inl List.mem_cons_self
    · exact (ih hline).imp (List.mem_cons_of_mem _) id
  | insert hblank _ ih =>
    rcases List.mem_cons.mp hline with rfl | hline
    · exact .inr hblank
    · exact ih hline

theorem Spaced.mono {blank' : List Char → Prop} (hblank : ∀ line, blank line → blank' line)
    (h : Spaced blank lines lines') : Spaced blank' lines lines' := by
  induction h with
  | nil => exact .nil
  | keep _ ih => exact .keep ih
  | insert h _ ih => exact .insert (hblank _ h) ih

theorem Spaced.refl (lines : List (List Char)) : Spaced blank lines lines := by
  induction lines with
  | nil => exact .nil
  | cons line lines ih => exact .keep ih

/-- Blank lines stay blank lines when the empty ones are dropped. -/
theorem Spaced.filter (h : Spaced blank lines lines') (hlines : ∀ line ∈ lines, line ≠ []) :
    Spaced blank lines (lines'.filter fun line => !line.isEmpty) := by
  induction h with
  | nil => exact .nil
  | @keep line lines lines' _ ih =>
    obtain ⟨hline, hlines⟩ := List.forall_mem_cons.mp hlines
    rw [List.filter_cons_of_pos (by simpa using hline)]
    exact .keep (ih hlines)
  | @insert line lines lines' hblank _ ih =>
    by_cases hline : line = []
    · rw [List.filter_cons_of_neg (by simpa using hline)]
      exact ih hlines
    · rw [List.filter_cons_of_pos (by simpa using hline)]
      exact .insert hblank (ih hlines)

/-- **Where all blank lines are empty, dropping empty lines takes them all away.** -/
theorem Spaced.filter_eq (h : Spaced (· = []) lines lines') (hlines : ∀ line ∈ lines, line ≠ []) :
    (lines'.filter fun line => !line.isEmpty) = lines := by
  induction h with
  | nil => rfl
  | keep _ ih =>
    obtain ⟨hline, hlines⟩ := List.forall_mem_cons.mp hlines
    rw [List.filter_cons_of_pos (by simpa using hline), ih hlines]
  | insert hblank _ ih =>
    rw [List.filter_cons_of_neg (by simpa using hblank)]
    exact ih hlines

end

end ServerWarden.Text
