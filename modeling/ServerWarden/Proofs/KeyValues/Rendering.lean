/-
# Reading back what was written

A tree is written entry by entry: the key, and then its text or its block in braces (`signs`).  Each
of these tokens may be spelled in its own way, and any gap may stand between two of them, as long as
what follows a bare word ends it (`Written`).  `Renders` puts the two together, and so a tree has as
many renderings as there are choices.

`parse_rendering` says that all of them are read back as the tree.  It has two halves, which know
nothing of each other: the tokens of a rendering say what the tree says, whatever lines they are on
(`Written.tokensFrom`), and tokens that say what a tree says are built into that tree, whatever
comes before and after them (`build_entries`).
-/
import ServerWarden.KeyValues.Tree
import ServerWarden.Proofs.KeyValues.Spelling

namespace ServerWarden

/-! ## 1. Renderings -/

/-- What the tokens of a value say, in order. -/
def KeyValue.signs : KeyValue → List KeyValues.Sign
  | .text t => [.word t.toList]
  | .block entries => .opens :: (ofEntries entries ++ [.closes])
where
  /-- What the tokens of a list of entries say. -/
  ofEntries : List (String × KeyValue) → List KeyValues.Sign
    | [] => []
    | (key, value) :: entries => .word key.toList :: (KeyValue.signs value ++ ofEntries entries)

namespace KeyValues

/-- What the tokens of a tree say. -/
abbrev signs (tree : KeyValues) : List Sign := KeyValue.signs.ofEntries tree

/-- What may follow a bare word: a blank, or a token that ends it. -/
def Apart (gap : List Char) (bare : Bool) : Prop :=
  match gap with
  | [] => bare = false
  | c :: _ => Text.isBlank c = true

/-- `Written after signs cs`: tokens that say `signs` are written as `cs`, behind a bare word if
`after`. -/
inductive Written : Bool → List Sign → List Char → Prop where
  | finish {after : Bool} {gap : List Char} : Gap gap → (after = true → Apart gap false) →
      Written after [] gap
  | token {after bare : Bool} {sign : Sign} {signs : List Sign} {gap cs rest : List Char} :
      Gap gap → Lexeme sign bare cs → (after = true → Apart gap bare) →
      Written bare signs rest → Written after (sign :: signs) (gap ++ (cs ++ rest))

/-- **A text is a rendering of a tree.** -/
def Renders (tree : KeyValues) (text : String) : Prop := Written false (signs tree) text.toList

/-! ## 2. The tokens of a rendering -/

theorem Lexeme.ends {sign : Sign} {cs : List Char} (h : Lexeme sign false cs) (rest : List Char) :
    Ends (cs ++ rest) := by
  rintro c hc
  cases h with
  | opens =>
    obtain rfl : '{' = c := Option.some.inj hc
    decide
  | closes =>
    obtain rfl : '}' = c := Option.some.inj hc
    decide
  | quoted =>
    obtain rfl : '"' = c := Option.some.inj hc
    decide

theorem Apart.ends {gap rest : List Char} {bare : Bool} (h : Apart gap bare)
    (hrest : bare = false → Ends rest) : Ends (gap ++ rest) := by
  cases gap with
  | nil => exact hrest h
  | cons c gap =>
    intro d hd
    obtain rfl : c = d := Option.some.inj hd
    simp [isBareEnd, show Text.isBlank c = true from h]

/-- What is written behind a bare word ends it. -/
theorem Written.ends {signs : List Sign} {cs : List Char} (h : Written true signs cs) :
    Ends cs := by
  cases h with
  | finish _ hapart =>
    have hends : Ends (cs ++ []) := (hapart rfl).ends fun _ c hc => nomatch hc
    rwa [List.append_nil] at hends
  | token _ hl hapart _ =>
    refine (hapart rfl).ends ?_
    intro hbare
    subst hbare
    exact hl.ends _

/-- **The tokens of what is written** say what was to be written. -/
theorem Written.tokensFrom {after : Bool} {signs : List Sign} {cs : List Char}
    (h : Written after signs cs) (line : Nat) :
    ∃ ts, KeyValues.tokensFrom line .gap cs = .ok ts ∧ ts.map Token.sign = signs := by
  induction h generalizing line with
  | @finish after gap hgap _ =>
    refine ⟨[], ?_, rfl⟩
    have hread : KeyValues.tokensFrom line .gap (gap ++ [])
        = KeyValues.tokensFrom (line + gap.count '\n') .gap [] := hgap.tokensFrom
    rwa [List.append_nil] at hread
  | @token after bare sign signs gap cs rest hgap hl _ hrest ih =>
    obtain ⟨ts, hts, hsigns⟩ := ih (line + gap.count '\n' + cs.count '\n')
    have hends : bare = true → Ends rest := by
      rintro rfl
      exact hrest.ends
    refine ⟨sign.at (line + gap.count '\n') :: ts, ?_, ?_⟩
    · rw [hgap.tokensFrom, hl.tokensFrom hends, hts]
      rfl
    · rw [List.map_cons, Sign.sign_at, hsigns]

/-! ## 3. The tree of the tokens -/

mutual

/-- The tokens of an entry become that entry. -/
theorem build_value : ∀ (value : KeyValue) (key : List Char) (line : Nat) (ts : List Token),
    ts.map Token.sign = value.signs → ∀ (frames : List Frame) (seen : KeyValues) (last : Nat)
      (rest : List Token), ∃ last', build frames seen last (.word key line :: (ts ++ rest))
        = build frames ((String.ofList key, value) :: seen) last' rest
  | .text t, key, line, ts, hts, frames, seen, last, rest => by
    obtain ⟨token, ts, rfl, htoken, hnil⟩ := List.map_eq_cons_iff.mp hts
    obtain rfl := List.map_eq_nil_iff.mp hnil
    rw [Token.eq_of_sign htoken]
    refine ⟨token.line, ?_⟩
    simp [Sign.at, build]
  | .block entries, key, line, ts, hts, frames, seen, last, rest => by
    obtain ⟨token, ts, rfl, htoken, hts⟩ := List.map_eq_cons_iff.mp hts
    obtain ⟨inner, ts, rfl, hinner, hts⟩ := List.map_eq_append_iff.mp hts
    obtain ⟨closing, ts, rfl, hclosing, hnil⟩ := List.map_eq_cons_iff.mp hts
    obtain rfl := List.map_eq_nil_iff.mp hnil
    rw [Token.eq_of_sign htoken, Token.eq_of_sign hclosing]
    obtain ⟨last', hinside⟩ := build_entries entries inner hinner
      (⟨seen, String.ofList key⟩ :: frames) [] token.line (.closeBlock closing.line :: rest)
    refine ⟨closing.line, ?_⟩
    simp only [Sign.at, List.cons_append, List.append_assoc, List.nil_append, build, hinside]
    simp

/-- **The tokens of a list of entries become those entries**, wherever they stand. -/
theorem build_entries : ∀ (entries : KeyValues) (ts : List Token),
    ts.map Token.sign = signs entries → ∀ (frames : List Frame) (seen : KeyValues) (last : Nat)
      (rest : List Token), ∃ last', build frames seen last (ts ++ rest)
        = build frames (entries.reverse ++ seen) last' rest
  | [], ts, hts, frames, seen, last, rest => by
    obtain rfl := List.map_eq_nil_iff.mp hts
    exact ⟨last, rfl⟩
  | (key, value) :: entries, ts, hts, frames, seen, last, rest => by
    obtain ⟨token, ts, rfl, htoken, hts⟩ := List.map_eq_cons_iff.mp hts
    obtain ⟨own, others, rfl, hown, hothers⟩ := List.map_eq_append_iff.mp hts
    obtain ⟨next, hvalue⟩ := build_value value key.toList token.line own hown frames seen last
      (others ++ rest)
    obtain ⟨last', hrest⟩ := build_entries entries others hothers frames
      ((String.ofList key.toList, value) :: seen) next rest
    refine ⟨last', ?_⟩
    rw [Token.eq_of_sign htoken, Sign.at, List.cons_append, List.append_assoc, hvalue, hrest,
      String.ofList_toList]
    simp

end

/-! ## 4. Every tree, and every rendering of it -/

theorem exists_spelled (c : Char) : ∃ cs, Spelled c cs := by
  by_cases hquote : c = '"'
  · exact ⟨_, by rw [hquote]; exact .quote⟩
  by_cases hslash : c = '\\'
  · exact ⟨_, by rw [hslash]; exact .backslash⟩
  · exact ⟨_, .plain hquote hslash⟩

theorem exists_quoted (word : List Char) : ∃ body, Quoted word body := by
  induction word with
  | nil => exact ⟨[], .nil⟩
  | cons c word ih =>
    obtain ⟨cs, hcs⟩ := exists_spelled c
    obtain ⟨body, hbody⟩ := ih
    exact ⟨_, .cons hcs hbody⟩

theorem exists_lexeme (sign : Sign) : ∃ cs, Lexeme sign false cs := by
  cases sign with
  | opens => exact ⟨_, .opens⟩
  | closes => exact ⟨_, .closes⟩
  | word text =>
    obtain ⟨body, hbody⟩ := exists_quoted text
    exact ⟨_, .quoted hbody⟩

theorem exists_written (signs : List Sign) : ∃ cs, Written false signs cs := by
  induction signs with
  | nil => exact ⟨[], .finish .nil nofun⟩
  | cons sign signs ih =>
    obtain ⟨rest, hrest⟩ := ih
    obtain ⟨cs, hcs⟩ := exists_lexeme sign
    exact ⟨_, .token .nil hcs nofun hrest⟩

/-- **Reading a rendering gives back the tree.**  Each tree has a rendering, and whatever words are
quoted or bare in one, however their characters are spelled, and whatever stands in its gaps, it is
read as that tree and no other. -/
theorem parse_rendering (tree : KeyValues) :
    (∃ text, Renders tree text) ∧ ∀ text, Renders tree text → parse text = .ok tree := by
  constructor
  · obtain ⟨cs, hcs⟩ := exists_written (signs tree)
    refine ⟨String.ofList cs, ?_⟩
    unfold Renders
    rwa [String.toList_ofList]
  · intro text h
    obtain ⟨ts, hts, hsigns⟩ := Written.tokensFrom h 1
    obtain ⟨last', hbuild⟩ := build_entries tree ts hsigns [] [] 1 []
    rw [List.append_nil, List.append_nil] at hbuild
    unfold parse tokens
    rw [hts]
    show build [] [] 1 ts = .ok tree
    rw [hbuild, build, List.reverse_reverse]

/-- A tree with a quote, a newline, an empty key and an empty block. -/
def sample : KeyValues :=
  [("r", .block [("\"a", .text "b//c"), ("", .block []), ("k", .text "\n")])]

/-- A rendering of it, with two comments, and with two slashes that start none. -/
def sampleText : String :=
  "r\x7b//x\n\"\\\"a\" b//c\n\"\"\x7b\x7d\tk \"\\n\"\x7d//y\n"

/-- The rendering is one, and it is read as the tree. -/
theorem parse_rendering_sample : Renders sample sampleText ∧ parse sampleText = .ok sample := by
  have bare (word : List Char) (hne : word ≠ []) (hslash : word.head? ≠ some '/')
      (hwhole : word.any isBareEnd = false) : Lexeme (.word word) true word := by
    refine .bare ⟨hne, hslash, fun c hc => ?_⟩
    simpa using List.any_eq_false.mp hwhole c hc
  have comment (body : List Char) (hbody : '\n' ∉ body) : Gap ('/' :: '/' :: (body ++ ['\n'])) :=
    .comment hbody .nil
  have blank (c : Char) (hc : Text.isBlank c = true) : Gap [c] := .blank hc .nil
  have hname : Lexeme (.word ['"', 'a']) false _ :=
    .quoted (.cons .quote (.cons (.plain (by decide) (by decide)) .nil))
  have hsigns : signs sample = [.word ['r'], .opens, .word ['"', 'a'], .word ['b', '/', '/', 'c'],
      .word [], .opens, .closes, .word ['k'], .word ['\n'], .closes] := by decide +kernel
  have htext : sampleText.toList = ['r', '\x7b', '/', '/', 'x', '\n', '"', '\\', '"', 'a', '"',
      ' ', 'b', '/', '/', 'c', '\n', '"', '"', '\x7b', '\x7d', '\t', 'k', ' ', '"', '\\', 'n', '"',
      '\x7d', '/', '/', 'y', '\n'] := by decide +kernel
  have hrenders : Renders sample sampleText := by
    unfold Renders
    rw [hsigns, htext]
    exact .token .nil (bare ['r'] (by decide) (by decide) (by decide)) nofun <|
      .token .nil .opens (fun _ => rfl) <|
      .token (comment ['x'] (by decide)) hname nofun <|
      .token (blank ' ' (by decide))
        (bare ['b', '/', '/', 'c'] (by decide) (by decide) (by decide)) nofun <|
      .token (blank '\n' (by decide)) (.quoted .nil) (fun _ => rfl) <|
      .token .nil .opens nofun <|
      .token .nil .closes nofun <|
      .token (blank '\t' (by decide)) (bare ['k'] (by decide) (by decide) (by decide)) nofun <|
      .token (blank ' ' (by decide)) (.quoted (.cons .newline .nil)) (fun _ => rfl) <|
      .token .nil .closes nofun <|
      .finish (comment ['y'] (by decide)) nofun
  exact ⟨hrenders, (parse_rendering sample).2 sampleText hrenders⟩

end KeyValues
end ServerWarden
