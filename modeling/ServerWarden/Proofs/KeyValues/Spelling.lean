/-
# How tokens are written

A token says something (`Sign`) and starts on a line.  What it says may be written in more than one
way: a word in quotes, with a newline or a tab as it is or as an escape, or bare if nothing in it
would end it or start a comment (`Lexeme`).  Between two tokens there may be blanks and comments
(`Gap`), and after a bare word there must be something that ends it.

Each way of writing has one lemma here, which says what the reader of tokens makes of it in front of
any text, and on which line it goes on: the line moves by the newlines that were written, wherever
they stand.
-/
import Mathlib.Data.List.Basic
import ServerWarden.KeyValues.Token

namespace ServerWarden.KeyValues

/-! ## 1. What is written -/

/-- What a token says. -/
inductive Sign where
  | opens
  | closes
  | word (text : List Char)
  deriving DecidableEq, Repr

/-- The token that says something on a line. -/
def Sign.at (line : Nat) : Sign → Token
  | .opens => .openBlock line
  | .closes => .closeBlock line
  | .word text => .word text line

def Token.sign : Token → Sign
  | .openBlock _ => .opens
  | .closeBlock _ => .closes
  | .word text _ => .word text

@[simp] theorem Sign.sign_at (line : Nat) (sign : Sign) : (sign.at line).sign = sign := by
  cases sign <;> rfl

theorem Sign.line_at (line : Nat) (sign : Sign) : (sign.at line).line = line := by
  cases sign <;> rfl

theorem Token.eq_of_sign {t : Token} {sign : Sign} (h : t.sign = sign) : t = sign.at t.line := by
  subst h
  cases t <;> rfl

/-- How one character of a quoted word is written. -/
inductive Spelled : Char → List Char → Prop where
  | plain {c : Char} : c ≠ '"' → c ≠ '\\' → Spelled c [c]
  | quote : Spelled '"' ['\\', '"']
  | backslash : Spelled '\\' ['\\', '\\']
  | newline : Spelled '\n' ['\\', 'n']
  | tab : Spelled '\t' ['\\', 't']

/-- How a quoted word is written between its quotes. -/
inductive Quoted : List Char → List Char → Prop where
  | nil : Quoted [] []
  | cons {c : Char} {cs word body : List Char} : Spelled c cs → Quoted word body →
      Quoted (c :: word) (cs ++ body)

/-- A word that may be written bare. -/
structure IsBare (word : List Char) : Prop where
  ne_nil : word ≠ []
  no_slash : word.head? ≠ some '/'
  whole : ∀ c ∈ word, isBareEnd c = false

/-- `Lexeme sign bare cs`: what a token says is written as `cs`, and `bare` if it is a bare word. -/
inductive Lexeme : Sign → Bool → List Char → Prop where
  | opens : Lexeme .opens false ['{']
  | closes : Lexeme .closes false ['}']
  | quoted {word body : List Char} : Quoted word body →
      Lexeme (.word word) false ('"' :: (body ++ ['"']))
  | bare {word : List Char} : IsBare word → Lexeme (.word word) true word

/-- What may stand between tokens: blanks, and comments up to their newline. -/
inductive Gap : List Char → Prop where
  | nil : Gap []
  | blank {c : Char} {gap : List Char} : Text.isBlank c = true → Gap gap → Gap (c :: gap)
  | comment {body gap : List Char} : '\n' ∉ body → Gap gap →
      Gap ('/' :: '/' :: (body ++ '\n' :: gap))

/-- Something that ends a bare word: the end of the text, a blank, a brace or a quote. -/
def Ends (cs : List Char) : Prop := ∀ c ∈ cs.head?, isBareEnd c = true

/-! ## 2. What the reader makes of it -/

section

variable {line start : Nat} {c : Char} {seen word body gap cs rest : List Char}

theorem startToken_of_blank (hc : Text.isBlank c = true) : startToken line c = (.gap, none) := by
  rw [startToken, if_pos hc]

/-- A blank moves the reader on, and to the next line if it is a newline. -/
theorem tokensFrom_blank (hc : Text.isBlank c = true) :
    tokensFrom line .gap (c :: rest) = tokensFrom (line + [c].count '\n') .gap rest := by
  rw [tokensFrom, startToken_of_blank hc]
  by_cases hn : c = '\n' <;> simp [hn]

theorem tokensFrom_comment (hbody : '\n' ∉ body) :
    tokensFrom line .comment (body ++ '\n' :: rest) = tokensFrom (line + 1) .gap rest := by
  induction body with
  | nil => simp [tokensFrom]
  | cons c body ih =>
    have hc : c ≠ '\n' := fun h => hbody (h ▸ List.mem_cons_self)
    rw [List.cons_append, tokensFrom, if_neg hc]
    exact ih fun h => hbody (List.mem_cons_of_mem c h)

/-- **Gaps are skipped.** -/
theorem Gap.tokensFrom (h : Gap gap) :
    tokensFrom line .gap (gap ++ rest) = tokensFrom (line + gap.count '\n') .gap rest := by
  induction h generalizing line with
  | nil => simp
  | @blank c gap hc _ ih =>
    rw [List.cons_append, tokensFrom_blank hc, ih, Nat.add_assoc, ← List.count_append]
    rfl
  | @comment body gap hbody _ ih =>
    have hstart : KeyValues.tokensFrom line .gap ('/' :: '/' :: (body ++ '\n' :: (gap ++ rest)))
        = KeyValues.tokensFrom line .comment (body ++ '\n' :: (gap ++ rest)) := by
      rfl
    have hcount : ('/' :: '/' :: (body ++ '\n' :: gap)).count '\n' = 1 + gap.count '\n' := by
      simp [List.count_append, List.count_eq_zero_of_not_mem hbody]
      omega
    rw [hcount, ← Nat.add_assoc, ← ih, ← tokensFrom_comment hbody, ← hstart]
    simp

/-- A written character of a quoted word is read as the character. -/
theorem Spelled.tokensFrom (h : Spelled c cs) :
    tokensFrom line (.quoted start seen) (cs ++ rest)
      = tokensFrom (line + cs.count '\n') (.quoted start (c :: seen)) rest := by
  cases h with
  | plain hquote hslash =>
    simp only [List.cons_append, List.nil_append, KeyValues.tokensFrom, if_neg hquote,
      if_neg hslash]
    by_cases hn : c = '\n' <;> simp [hn]
  | quote => rfl
  | backslash => rfl
  | newline => rfl
  | tab => rfl

/-- **A quoted word** is read up to its closing quote. -/
theorem Quoted.tokensFrom (h : Quoted word body) :
    tokensFrom line (.quoted start seen) (body ++ '"' :: rest)
      = (tokensFrom (line + body.count '\n') .gap rest).map
          (.word (seen.reverse ++ word) start :: ·) := by
  induction h generalizing line seen with
  | nil => simp [KeyValues.tokensFrom]
  | cons hc _ ih =>
    rw [List.append_assoc, hc.tokensFrom, ih, List.count_append, ← Nat.add_assoc]
    simp

/-- What ends a bare word is read as if it stood after a gap. -/
theorem tokensFrom_of_ends (h : Ends rest) :
    tokensFrom line (.bare seen) rest
      = (tokensFrom line .gap rest).map (.word seen.reverse line :: ·) := by
  cases rest with
  | nil => rfl
  | cons c rest =>
    have hc : isBareEnd c = true := h c rfl
    simp only [tokensFrom, hc, if_true]
    cases (startToken line c).2 with
    | none =>
      cases tokensFrom (if c = '\n' then line + 1 else line) (startToken line c).1 rest <;> rfl
    | some token => rfl

/-- **A bare word** is read up to what ends it. -/
theorem tokensFrom_bare (hword : ∀ c ∈ word, isBareEnd c = false) (hrest : Ends rest) :
    tokensFrom line (.bare seen) (word ++ rest)
      = (tokensFrom line .gap rest).map (.word (seen.reverse ++ word) line :: ·) := by
  induction word generalizing seen with
  | nil => simp [tokensFrom_of_ends hrest]
  | cons c word ih =>
    have hc : isBareEnd c = false := hword c List.mem_cons_self
    rw [List.cons_append, tokensFrom, hc, if_neg (by decide)]
    rw [ih fun d hd => hword d (List.mem_cons_of_mem c hd)]
    simp

theorem startToken_of_bare (hc : isBareEnd c = false) (hslash : c ≠ '/') :
    startToken line c = (.bare [c], none) := by
  simp only [isBareEnd, Bool.or_eq_false_iff, beq_eq_false_iff_ne] at hc
  obtain ⟨⟨⟨hblank, hopen⟩, hclose⟩, hquote⟩ := hc
  simp [startToken, hblank, hopen, hclose, hslash, hquote]

theorem newline_notMem_of_bare (hword : ∀ c ∈ word, isBareEnd c = false) : '\n' ∉ word := by
  intro h
  exact absurd (hword _ h) (by decide)

/-- **A token is read from each of its spellings**, on the line on which it starts. -/
theorem Lexeme.tokensFrom {sign : Sign} {bare : Bool} (h : Lexeme sign bare cs)
    (hrest : bare = true → Ends rest) :
    tokensFrom line .gap (cs ++ rest)
      = (tokensFrom (line + cs.count '\n') .gap rest).map (sign.at line :: ·) := by
  cases h with
  | opens => rfl
  | closes => rfl
  | @quoted word body hq =>
    have hcount : ('"' :: (body ++ ['"'])).count '\n' = body.count '\n' := by simp
    have hstart : KeyValues.tokensFrom line .gap ('"' :: (body ++ '"' :: rest))
        = KeyValues.tokensFrom line (.quoted line []) (body ++ '"' :: rest) := by
      rfl
    rw [hcount]
    simp only [List.cons_append, List.append_assoc, List.nil_append]
    rw [hstart, hq.tokensFrom]
    rfl
  | bare hb =>
    cases cs with
    | nil => exact absurd rfl hb.ne_nil
    | cons c word =>
      have hslash : c ≠ '/' := fun hc => hb.no_slash (by rw [hc]; rfl)
      have hnone : (c :: word).count '\n' = 0 :=
        List.count_eq_zero_of_not_mem (newline_notMem_of_bare hb.whole)
      have hc : isBareEnd c = false := hb.whole c List.mem_cons_self
      have hline : c ≠ '\n' := fun hn => absurd (hn ▸ hc) (by decide)
      rw [hnone, Nat.add_zero, List.cons_append, KeyValues.tokensFrom,
        startToken_of_bare hc hslash, if_neg hline]
      exact tokensFrom_bare (fun d hd => hb.whole d (List.mem_cons_of_mem c hd)) (hrest rfl)

end

end ServerWarden.KeyValues
