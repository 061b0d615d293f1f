/-
# A reason does not depend on line endings

An operator writes the lines of a reason with whatever editor is at hand, so each line may be ended
by a line feed with any number of carriage returns in front, and the last may not be ended at all
(`Text.Writes`).  What is read back are the lines (`Text.Writes.bareLines`), so the reason is a
function of the lines alone, `Reason.ofLines`.

A reason of several lines is announced on lines of its own: it starts with a line feed, but not with
one more than its blank lines give it (`Reason.feeds_ofLines`).

The file is gone when its reason has been taken (`Reason.take_again`).
-/
import ServerWarden.Files.System
import ServerWarden.Proofs.Files.Removal
import ServerWarden.Proofs.Text.Lines
import ServerWarden.Reason

namespace ServerWarden

/-! ## 1. Writing lines and reading them back -/

namespace Text

/-- What can stand on a line.  A carriage return at its end would be part of the ending. -/
structure IsLine (line : List Char) : Prop where
  no_feed : '\n' ∉ line
  no_return : line.getLast? ≠ some '\r'

/-- `Writes lines cs`: a text of lines, each with an ending of its own. -/
inductive Writes : List (List Char) → List Char → Prop where
  | nil : Writes [] []
  /-- The last line may go without an ending, as long as something stands on it. -/
  | last {line : List Char} : line ≠ [] → Writes [line] line
  | ended {line cs : List Char} {lines : List (List Char)} (returns : Nat) : Writes lines cs →
      Writes (line :: lines) (line ++ (List.replicate returns '\r' ++ '\n' :: cs))

variable {line cs : List Char} {lines : List (List Char)}

theorem dropWhileEnd_append {α : Type} {p : α → Bool} {xs ys : List α}
    (hxs : ∀ x, xs.getLast? = some x → p x = false) (hys : ∀ y ∈ ys, p y = true) :
    dropWhileEnd p (xs ++ ys) = xs := by
  have hrev : ∀ y ∈ ys.reverse, p y = true := by simpa using hys
  rw [dropWhileEnd, List.reverse_append, List.dropWhile_append_of_pos hrev]
  rcases List.eq_nil_or_concat xs with rfl | ⟨xs, x, rfl⟩
  · rfl
  · have hx : p x = false := hxs x (by simp)
    simp [hx]

/-- Carriage returns behind a line are not part of it. -/
theorem bareLine_append_returns (h : IsLine line) (n : Nat) :
    Reason.bareLine (line ++ List.replicate n '\r') = line := by
  refine dropWhileEnd_append ?_ ?_
  · intro c hc
    have hne : c ≠ '\r' := by
      rintro rfl
      exact h.no_return hc
    simpa using hne
  · simp

/-- One of them may have been dropped before. -/
theorem bareLine_dropReturn (h : IsLine line) (n : Nat) :
    Reason.bareLine (dropReturn (line ++ List.replicate n '\r')) = line := by
  cases n with
  | zero =>
    have hdrop : dropReturn line = line := by
      unfold dropReturn
      split
      · next hlast => exact absurd hlast h.no_return
      · rfl
    simpa [hdrop] using bareLine_append_returns h 0
  | succ n =>
    have hdrop : dropReturn (line ++ List.replicate (n + 1) '\r')
        = line ++ List.replicate n '\r' := by
      rw [List.replicate_succ', ← List.append_assoc, dropReturn, List.getLast?_concat]
      exact List.dropLast_concat
    rw [hdrop, bareLine_append_returns h n]

/-- **Lines are read back**, however each of them is ended. -/
theorem Writes.bareLines (h : Writes lines cs) (hlines : ∀ line ∈ lines, IsLine line) :
    (lineChars cs).map Reason.bareLine = lines := by
  induction h with
  | nil => rfl
  | @last line hne =>
    have hline : IsLine line := hlines line List.mem_cons_self
    rw [lineChars_of_no_feed hline.no_feed, if_neg hne, List.map_singleton]
    simpa using bareLine_append_returns hline 0
  | @ended line cs lines returns _ ih =>
    obtain ⟨hline, hlines⟩ := List.forall_mem_cons.mp hlines
    have hfeed : '\n' ∉ line ++ List.replicate returns '\r' := by
      simp [hline.no_feed]
    rw [← List.append_assoc, lineChars_feed hfeed, List.map_cons, bareLine_dropReturn hline,
      ih hlines]

/-! ## 2. Lines put together -/

theorem unlines_cons_cons (first second : List Char) (rest : List (List Char)) :
    unlines (first :: second :: rest) = first ++ '\n' :: unlines (second :: rest) := by
  simp [unlines]

/-- What lines start with, put together. -/
theorem head?_unlines (hlines : ∀ line ∈ lines, '\n' ∉ line) (hlong : 2 ≤ lines.length) :
    (unlines lines).head? = some '\n' ↔ lines.head? = some [] := by
  obtain _ | ⟨first, _ | ⟨second, rest⟩⟩ := lines
  · simp at hlong
  · simp at hlong
  · rw [unlines_cons_cons]
    cases first with
    | nil => simp
    | cons c cs =>
      have hc : c ≠ '\n' := by
        rintro rfl
        exact hlines _ List.mem_cons_self List.mem_cons_self
      simpa using hc

/-- Lines start with as many line feeds as there are blank lines in front. -/
theorem feeds_unlines (hlines : ∀ line ∈ lines, '\n' ∉ line) (hsome : ∃ line ∈ lines, line ≠ []) :
    ((unlines lines).takeWhile (· = '\n')).length = (lines.takeWhile List.isEmpty).length := by
  induction lines with
  | nil => simp at hsome
  | cons first rest ih =>
    cases first with
    | cons c cs =>
      have hc : c ≠ '\n' := by
        rintro rfl
        exact hlines _ List.mem_cons_self List.mem_cons_self
      cases rest with
      | nil => simp [unlines, hc]
      | cons second rest => simp [unlines_cons_cons, hc]
    | nil =>
      obtain ⟨line, hmem, hne⟩ := hsome
      have hmem : line ∈ rest := by
        rcases List.mem_cons.mp hmem with rfl | hmem
        · exact absurd rfl hne
        · exact hmem
      have ih := ih (fun l hl => hlines l (List.mem_cons_of_mem _ hl)) ⟨line, hmem, hne⟩
      cases rest with
      | nil => exact nomatch hmem
      | cons second rest =>
        rw [unlines_cons_cons]
        simpa using ih

end Text

/-! ## 3. The reason that lines give -/

namespace Reason

open Text (IsLine Writes unlines)

variable {lines : List (List Char)} {fallback text path : String} {files rest : FileTree}

/-- How many lines have something on them. -/
def filled (lines : List (List Char)) : Nat := lines.countP fun line => !line.isEmpty

/-- The reason that lines give. -/
def ofLines (lines : List (List Char)) (fallback : String) : String :=
  if filled lines = 0 then fallback
  else if filled lines = 1 ∨ lines.head? = some [] then String.ofList (unlines lines)
  else String.ofList ('\n' :: unlines lines)

theorem filled_le_length : filled lines ≤ lines.length := List.countP_le_length

theorem filled_eq_zero : filled lines = 0 ↔ ∀ line ∈ lines, line = [] := by
  simp [filled, List.countP_eq_zero]

theorem exists_of_filled (h : 0 < filled lines) : ∃ line ∈ lines, line ≠ [] := by
  simpa [filled, List.countP_pos_iff] using h

/-- **A reason is what its lines give.** -/
theorem ofText_eq (h : Writes lines text.toList) (hlines : ∀ line ∈ lines, IsLine line) :
    ofText text fallback = ofLines lines fallback := by
  have hread : (Text.lineChars text.toList).map bareLine = lines := h.bareLines hlines
  unfold ofText ofLines
  simp only [hread]
  split
  · next hzero => exact (if_pos hzero).symm
  · next hone =>
    have hone : filled lines = 1 := hone
    simp [hone]
  · next hzero hone =>
    have hzero : ¬ filled lines = 0 := hzero
    have hone : ¬ filled lines = 1 := hone
    have hlong : 2 ≤ lines.length := by
      have hle : filled lines ≤ lines.length := filled_le_length
      omega
    have hhead := Text.head?_unlines (fun line hl => (hlines line hl).no_feed) hlong
    simp only [hzero, hone, hhead, if_false, false_or]
    split <;> rfl

/-- **A reason of several lines** starts with the line feeds of its blank lines, or with one. -/
theorem feeds_ofLines (h : 2 ≤ filled lines) (hlines : ∀ line ∈ lines, IsLine line) :
    ((ofLines lines fallback).toList.takeWhile (· = '\n')).length
      = max 1 (lines.takeWhile List.isEmpty).length := by
  have hfeeds := Text.feeds_unlines (fun line hl => (hlines line hl).no_feed)
    (exists_of_filled (by omega))
  have hone : ¬ filled lines = 1 := by omega
  have hzero : ¬ filled lines = 0 := by omega
  simp only [ofLines, hzero, hone, if_false, false_or]
  split
  · next hhead =>
    obtain ⟨rest, rfl⟩ := List.head?_eq_some_iff.mp hhead
    rw [String.toList_ofList, hfeeds]
    simp
  · next hhead =>
    have hnone : lines.takeWhile List.isEmpty = [] := by
      cases lines with
      | nil => rfl
      | cons first rest =>
        cases first with
        | nil => exact absurd rfl hhead
        | cons c cs => rfl
    rw [hnone, List.length_nil] at hfeeds
    rw [hnone, String.toList_ofList]
    simpa using hfeeds

/-! ## 4. The file -/

theorem take_of_not_has (h : files.has path = false) :
    (take files (some path) fallback).value = (fallback, files) := by
  simp [take, h]

/-- What can be read is the reason. -/
theorem take_of_readText (h : files.readText path = .ok text) :
    (take files (some path) fallback).value.1 = ofText text fallback := by
  cases hremove : files.remove path <;> simp [take, FileTree.has_of_readText h, h, hremove]

/-- What cannot be read gives no reason. -/
theorem take_of_unreadable {e : FileError} (h : files.readText path = .error e) :
    (take files (some path) fallback).value.1 = fallback := by
  cases hhas : files.has path with
  | false => rw [take_of_not_has hhas]
  | true => cases hremove : files.remove path <;> simp [take, hhas, h, hremove]

/-- **A file that can be removed is removed**, whether or not it could be read. -/
theorem take_of_remove (h : files.remove path = .ok rest) :
    (take files (some path) fallback).value.2 = rest := by
  cases htext : files.readText path <;> simp [take, FileTree.has_before_remove h, h, htext]

theorem take_of_irremovable {e : SystemError} (h : files.remove path = .error e) :
    (take files (some path) fallback).value.2 = files := by
  cases hhas : files.has path with
  | false => rw [take_of_not_has hhas]
  | true => cases htext : files.readText path <;> simp [take, hhas, h, htext]

/-- **The next time there is no reason left.** -/
theorem take_again (files : FileTree) (path fallback fallback' : String) :
    (take (take files (some path) fallback).value.2 (some path) fallback').value.1
      = fallback' := by
  cases hremove : files.remove path with
  | ok rest => rw [take_of_remove hremove, take_of_not_has (FileTree.has_of_remove hremove)]
  | error e =>
    rw [take_of_irremovable hremove]
    cases htext : files.readText path with
    | error e => exact take_of_unreadable htext
    | ok text =>
      -- what can be read can be removed
      obtain ⟨rest, hrest⟩ := FileTree.exists_remove htext
      exact nomatch hremove.symm.trans hrest

/-- **A reason is taken from its lines, once.**  All files that write the same lines, each line with
whatever ending, give one reason.  It is the fallback if all lines are empty, the lines if one is
not, and the lines on lines of their own if several are not.  The file is removed if it can be, and
nothing else is, and the next time there is no reason. -/
theorem taken_from_lines {lines : List (List Char)} (fallback : String)
    (hlines : ∀ line ∈ lines, IsLine line) :
    (∃ reason : String,
      (∀ (files : FileTree) (path text : String), files.readText path = .ok text →
        Writes lines text.toList → (take files (some path) fallback).value.1 = reason) ∧
      ((∀ line ∈ lines, line = []) → reason = fallback) ∧
      (filled lines = 1 → reason.toList = List.intercalate ['\n'] lines) ∧
      (2 ≤ filled lines →
        reason.toList = (if lines.head? = some [] then [] else ['\n'])
          ++ List.intercalate ['\n'] lines ∧
        (reason.toList.takeWhile (· = '\n')).length
          = max 1 (lines.takeWhile List.isEmpty).length)) ∧
    ∀ (files : FileTree) (path : String),
      (∀ e, files.readText path = .error e →
        (take files (some path) fallback).value.1 = fallback) ∧
      (∀ rest, files.remove path = .ok rest →
        (take files (some path) fallback).value.2 = rest ∧ rest.has path = false ∧
          ∀ p, files.resolve path ≠ .ok p → rest.at? p = files.at? p) ∧
      (∀ e, files.remove path = .error e →
        (take files (some path) fallback).value.2 = files) ∧
      ∀ fallback' : String,
        (take (take files (some path) fallback).value.2 (some path) fallback').value.1
          = fallback' := by
  constructor
  · refine ⟨ofLines lines fallback, ?_, ?_, ?_, ?_⟩
    · intro files path text htext hwrites
      rw [take_of_readText htext, ofText_eq hwrites hlines]
    · intro hempty
      exact if_pos (filled_eq_zero.mpr hempty)
    · intro hone
      simp [ofLines, hone, unlines]
    · intro hmore
      refine ⟨?_, feeds_ofLines hmore hlines⟩
      have hzero : ¬ filled lines = 0 := by omega
      have hone : ¬ filled lines = 1 := by omega
      simp only [ofLines, hzero, hone, if_false, false_or]
      split <;> simp [unlines]
  · intro files path
    refine ⟨fun e he => take_of_unreadable he, ?_, fun e he => take_of_irremovable he, ?_⟩
    · intro rest hrest
      refine ⟨take_of_remove hrest, FileTree.has_of_remove hrest, ?_⟩
      intro p hp
      exact FileTree.at?_of_remove hrest hp
    · intro fallback'
      exact take_again files path fallback fallback'

/-- A machine on which a reason was left. -/
def left (text : String) : FileTree :=
  FileTree.bare.place "/srv/reason" (.file (Text.Utf8.encode text) false)

/-- Two ways to write the same three lines give one reason, and give it once. -/
theorem taken_from_lines_wipe :
    (∀ line ∈ ["Wipe day".toList, [], "Back soon".toList], IsLine line) ∧
    Writes ["Wipe day".toList, [], "Back soon".toList] "Wipe day\r\n\nBack soon".toList ∧
    Writes ["Wipe day".toList, [], "Back soon".toList] "Wipe day\n\r\r\nBack soon\n".toList ∧
    ∃ reason : String, reason.toList = "\nWipe day\n\nBack soon".toList ∧
      (take (left "Wipe day\r\n\nBack soon") (some "/srv/reason") "Stopped").value.1 = reason ∧
      (take (left "Wipe day\n\r\r\nBack soon\n") (some "/srv/reason") "Stopped").value.1
        = reason ∧
      (take (take (left "Wipe day\r\n\nBack soon") (some "/srv/reason") "Stopped").value.2
        (some "/srv/reason") "Stopped").value.1 = "Stopped" := by
  have hlines : ∀ line ∈ ["Wipe day".toList, [], "Back soon".toList], IsLine line := by
    simp only [List.forall_mem_cons]
    exact ⟨⟨by decide, by decide⟩, ⟨by decide, by decide⟩, ⟨by decide, by decide⟩, nofun⟩
  have hfirst : Writes ["Wipe day".toList, [], "Back soon".toList]
      "Wipe day\r\n\nBack soon".toList := .ended 1 (.ended 0 (.last (by decide)))
  have hsecond : Writes ["Wipe day".toList, [], "Back soon".toList]
      "Wipe day\n\r\r\nBack soon\n".toList := .ended 0 (.ended 2 (.ended 0 .nil))
  obtain ⟨⟨reason, hreason, -, -, hmore⟩, hfile⟩ := taken_from_lines "Stopped" hlines
  refine ⟨hlines, hfirst, hsecond, reason, (hmore (by decide)).1, ?_, ?_, ?_⟩
  · exact hreason _ _ _ (by decide +kernel) hfirst
  · exact hreason _ _ _ (by decide +kernel) hsecond
  · exact (hfile _ _).2.2.2 "Stopped"

end Reason
end ServerWarden
