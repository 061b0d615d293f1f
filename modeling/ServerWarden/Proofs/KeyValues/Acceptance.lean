/-
# Which texts are accepted

A text is well formed for a tree (`Formed`) if it is the tree's tokens in their order with gaps
between them, and nothing else: each quoted word is closed by a quote that no backslash stands in
front of, each key has a value, each opening brace follows a key and has its own closing brace, and
a slash where a token could start begins a comment.  Inside quotes a backslash may stand in front of
any character, and the last comment may end with the text; that is more than `Renders` allows, which
describes what is written and not all that is read.

* Well-formed texts are accepted, also with a newline behind them (`WellFormed.tokensFrom`).
* What is accepted is well formed (`reads_of_tokensFrom`, `signs_of_build`), with one exception: a
  text may break off behind a backslash in a quoted word.  That backslash is then read as the
  closing quote (`tokensFrom_mended`).
* `parse_eq_ok_iff` says that there is no other exception, and `broken_off_accepted` that this is
  one: a text whose last quote is never closed is read as if it were.
-/
import ServerWarden.Proofs.KeyValues.Rendering

namespace ServerWarden.KeyValues

/-! ## 1. Well-formed texts -/

/-- What may stand between quotes for a word: each character as it is, or by what stands for it
behind a backslash. -/
inductive Enclosed : List Char → List Char → Prop where
  | nil : Enclosed [] []
  | plain {c : Char} {word body : List Char} : c ≠ '"' → c ≠ '\\' → Enclosed word body →
      Enclosed (c :: word) (c :: body)
  | escaped {c : Char} {word body : List Char} : Enclosed word body →
      Enclosed (unescape c :: word) ('\\' :: c :: body)

/-- What is written between quotes may be read from there. -/
theorem Quoted.enclosed {word body : List Char} (h : Quoted word body) : Enclosed word body := by
  induction h with
  | nil => exact .nil
  | @cons c cs word body hc _ ih =>
    have escaped (e : Char) : Enclosed (unescape e :: word) ('\\' :: e :: body) := .escaped ih
    cases hc with
    | plain hquote hslash => exact .plain hquote hslash ih
    | quote => exact escaped '"'
    | backslash => exact escaped '\\'
    | newline => exact escaped 'n'
    | tab => exact escaped 't'

/-- `Form sign bare cs`: what a token says may be read from `cs`, and `bare` if it is a bare
word. -/
inductive Form : Sign → Bool → List Char → Prop where
  | opens : Form .opens false ['{']
  | closes : Form .closes false ['}']
  | quoted {word body : List Char} : Enclosed word body →
      Form (.word word) false ('"' :: (body ++ ['"']))
  | bare {word : List Char} : IsBare word → Form (.word word) true word

/-- What may be left behind the last gap: nothing, or a comment that ends with the text. -/
inductive Remark : List Char → Prop where
  | none : Remark []
  | comment {body : List Char} : '\n' ∉ body → Remark ('/' :: '/' :: body)

/-- `WellFormed after signs cs`: `cs` is tokens that say `signs` with gaps around them, behind a
bare word if `after`. -/
inductive WellFormed : Bool → List Sign → List Char → Prop where
  | finish {after : Bool} {gap tail : List Char} : Gap gap → Remark tail →
      (after = true → Apart gap !tail.isEmpty) → WellFormed after [] (gap ++ tail)
  | token {after bare : Bool} {sign : Sign} {signs : List Sign} {gap cs rest : List Char} :
      Gap gap → Form sign bare cs → (after = true → Apart gap bare) →
      WellFormed bare signs rest → WellFormed after (sign :: signs) (gap ++ (cs ++ rest))

/-- **A text is well formed for a tree.** -/
def Formed (tree : KeyValues) (text : String) : Prop := WellFormed false (signs tree) text.toList

/-- The newlines in quotes that a backslash stands in front of.  The reader does not count them. -/
def hidden : List Char → Nat
  | [] => 0
  | '\\' :: c :: cs => [c].count '\n' + hidden cs
  | _ :: cs => hidden cs

/-! ## 2. Well-formed texts are accepted -/

section

variable {line start : Nat} {c : Char} {seen word body gap cs rest : List Char} {sign : Sign}
  {signs : List Sign} {ts : List Token}

theorem hidden_cons (hc : c ≠ '\\') : hidden (c :: cs) = hidden cs := by
  rw [hidden.eq_def]
  split
  · contradiction
  · next heq => exact absurd (List.cons.inj heq).1 hc
  · next heq => rw [(List.cons.inj heq).2]

theorem hidden_of_notMem (h : '\n' ∉ cs) : hidden cs = 0 := by
  fun_induction hidden cs with
  | case1 => rfl
  | case2 c cs ih =>
    simp only [List.mem_cons, not_or] at h
    rw [ih h.2.2, List.count_eq_zero_of_not_mem]
    simpa using h.2.1
  | case3 c cs _ ih => exact ih fun hmem => h (List.mem_cons_of_mem c hmem)

theorem Enclosed.hidden_append (h : Enclosed word body) (rest : List Char) :
    hidden (body ++ rest) = hidden body + hidden rest := by
  induction h with
  | nil => simp [hidden]
  | plain _ hslash _ ih => rw [List.cons_append, hidden_cons hslash, hidden_cons hslash, ih]
  | escaped _ ih => rw [List.cons_append, List.cons_append, hidden, hidden, ih, Nat.add_assoc]

theorem ends_cons (hc : isBareEnd c = true) : Ends (c :: rest) := by
  intro d hd
  obtain rfl : c = d := Option.some.inj hd
  exact hc

/-- What is enclosed is read character by character, and the line moves by the newlines in it that
are not hidden. -/
theorem Enclosed.tokensFrom (h : Enclosed word body) (line start : Nat) (seen rest : List Char) :
    ∃ line', line' + hidden body = line + body.count '\n' ∧
      tokensFrom line (.quoted start seen) (body ++ rest)
        = tokensFrom line' (.quoted start (word.reverse ++ seen)) rest := by
  induction h generalizing line seen with
  | nil => exact ⟨line, rfl, rfl⟩
  | @plain c word body hquote hslash _ ih =>
    obtain ⟨line', hline, hbody⟩ := ih (line + [c].count '\n') (c :: seen)
    refine ⟨line', ?_, ?_⟩
    · rw [hidden_cons hslash, hline, List.count_cons (l := body), List.count_singleton]
      omega
    · rw [List.cons_append, KeyValues.tokensFrom, if_neg hquote, if_neg hslash]
      have hmoved : (if c = '\n' then line + 1 else line) = line + [c].count '\n' := by
        by_cases hn : c = '\n' <;> simp [hn]
      rw [hmoved, hbody]
      simp
  | @escaped c word body _ ih =>
    obtain ⟨line', hline, hbody⟩ := ih line (unescape c :: seen)
    refine ⟨line', ?_, ?_⟩
    · have hcount : ('\\' :: c :: body).count '\n' = [c].count '\n' + body.count '\n' := by
        simp [List.count_cons, Nat.add_comm]
      rw [hidden, hcount]
      omega
    · have hescape : KeyValues.tokensFrom line (.quoted start seen) ('\\' :: c :: (body ++ rest))
          = KeyValues.tokensFrom line (.quoted start (unescape c :: seen)) (body ++ rest) := by
        rfl
      rw [List.cons_append, List.cons_append, hescape, hbody]
      simp

/-- A token is read from each of its forms. -/
theorem Form.tokensFrom {bare : Bool} (h : Form sign bare cs) (hrest : bare = true → Ends rest)
    (line : Nat) : ∃ line', line' + hidden cs = line + cs.count '\n' ∧
      tokensFrom line .gap (cs ++ rest) = (tokensFrom line' .gap rest).map (sign.at line :: ·) := by
  cases h with
  | opens => exact ⟨_, rfl, Lexeme.opens.tokensFrom hrest⟩
  | closes => exact ⟨_, rfl, Lexeme.closes.tokensFrom hrest⟩
  | @quoted word body hq =>
    obtain ⟨line', hline, hbody⟩ := hq.tokensFrom line line [] ('"' :: rest)
    have hcount : ('"' :: (body ++ ['"'])).count '\n' = body.count '\n' := by simp
    refine ⟨line', ?_, ?_⟩
    · have hquote : hidden ['"'] = 0 := rfl
      rw [hidden_cons (by decide), hq.hidden_append, hquote, Nat.add_zero, hcount, hline]
    · have hstart : KeyValues.tokensFrom line .gap ('"' :: (body ++ '"' :: rest))
          = KeyValues.tokensFrom line (.quoted line []) (body ++ '"' :: rest) := by
        rfl
      simp only [List.cons_append, List.append_assoc, List.nil_append]
      rw [hstart, hbody, KeyValues.tokensFrom, if_pos rfl, List.append_nil, List.reverse_reverse]
      rfl
  | bare hb =>
    refine ⟨_, ?_, (Lexeme.bare hb).tokensFrom hrest⟩
    rw [hidden_of_notMem (newline_notMem_of_bare hb.whole), Nat.add_zero]

theorem Form.ends {bare : Bool} (h : Form sign bare cs) (hbare : bare = false)
    (rest : List Char) : Ends (cs ++ rest) := by
  cases h with
  | opens => exact ends_cons (by decide)
  | closes => exact ends_cons (by decide)
  | quoted => exact ends_cons (by decide)
  | bare => contradiction

theorem WellFormed.ends (h : WellFormed true signs cs) : Ends cs := by
  cases h with
  | @finish _ gap tail _ _ hapart =>
    refine (hapart rfl).ends fun htail => ?_
    rw [show tail = [] by simpa using htail]
    exact fun c hc => nomatch hc
  | token _ hform hapart _ => exact (hapart rfl).ends fun hbare => hform.ends hbare _

theorem Remark.tokensFrom {tail : List Char} (h : Remark tail) (line : Nat) {rest : List Char}
    (hrest : rest = [] ∨ rest = ['\n']) : tokensFrom line .gap (tail ++ rest) = .ok [] := by
  have hnewline : KeyValues.tokensFrom line .gap ['\n'] = .ok [] := rfl
  cases h with
  | none =>
    rcases hrest with rfl | rfl
    · rfl
    · exact hnewline
  | @comment body hbody =>
    have hstart : KeyValues.tokensFrom line .gap ('/' :: '/' :: (body ++ rest))
        = KeyValues.tokensFrom line .comment (body ++ rest) := by
      rfl
    rw [List.cons_append, List.cons_append, hstart]
    rcases hrest with rfl | rfl
    · rw [List.append_nil]
      clear hstart
      induction body with
      | nil => rfl
      | cons c body ih =>
        rw [List.mem_cons, not_or] at hbody
        rw [KeyValues.tokensFrom, if_neg (Ne.symm hbody.1)]
        exact ih hbody.2
    · rw [tokensFrom_comment hbody]
      rfl

/-- **The tokens of a well-formed text** say what it is well formed for, and a newline behind it
changes nothing. -/
theorem WellFormed.tokensFrom {after : Bool} (h : WellFormed after signs cs) (line : Nat)
    {rest : List Char} (hrest : rest = [] ∨ rest = ['\n']) :
    ∃ ts, tokensFrom line .gap (cs ++ rest) = .ok ts ∧ ts.map Token.sign = signs := by
  induction h generalizing line with
  | finish hgap htail _ =>
    refine ⟨[], ?_, rfl⟩
    rw [List.append_assoc, hgap.tokensFrom, htail.tokensFrom _ hrest]
  | @token after bare sign signs gap cs more hgap hform _ hmore ih =>
    have hends : bare = true → Ends (more ++ rest) := by
      rintro rfl
      cases more with
      | nil =>
        rcases hrest with rfl | rfl
        · exact fun c hc => nomatch hc
        · exact ends_cons (by decide)
      | cons c more => exact ends_cons (hmore.ends c rfl)
    obtain ⟨line', -, hread⟩ := hform.tokensFrom hends (line + gap.count '\n')
    obtain ⟨ts, hts, hsigns⟩ := ih line'
    refine ⟨sign.at (line + gap.count '\n') :: ts, ?_, ?_⟩
    · rw [List.append_assoc, List.append_assoc, hgap.tokensFrom, hread, hts]
      rfl
    · rw [List.map_cons, Sign.sign_at, hsigns]

/-! ## 3. What is accepted is well formed, or breaks off in an escape -/

/-- Well formed, once a backslash that the text ends in may be taken as a quote. -/
def Reads (after : Bool) (signs : List Sign) (cs : List Char) : Prop :=
  WellFormed after signs cs ∨
    ∃ before, cs = before ++ ['\\'] ∧ WellFormed after signs (before ++ ['"'])

/-- What may be put in front of a well-formed text may be put in front of one that breaks off. -/
theorem Reads.lift {after after' : Bool} {signs' : List Sign} {pre : List Char}
    (hlift : ∀ rest, WellFormed after signs rest → WellFormed after' signs' (pre ++ rest))
    (h : Reads after signs rest) : Reads after' signs' (pre ++ rest) := by
  rcases h with h | ⟨before, rfl, h⟩
  · exact .inl (hlift rest h)
  · refine .inr ⟨pre ++ before, (List.append_assoc ..).symm, ?_⟩
    rw [List.append_assoc]
    exact hlift _ h

theorem Gap.append (hgap : Gap gap) (hrest : Gap rest) : Gap (gap ++ rest) := by
  induction hgap with
  | nil => exact hrest
  | blank hc _ ih => exact .blank hc ih
  | @comment body gap hbody _ ih =>
    rw [List.cons_append, List.cons_append, List.append_assoc, List.cons_append]
    exact .comment hbody ih

theorem WellFormed.prepend_gap (hgap : Gap gap) (h : WellFormed false signs rest) :
    WellFormed false signs (gap ++ rest) := by
  cases h with
  | finish hmore htail _ =>
    rw [← List.append_assoc]
    exact .finish (hgap.append hmore) htail nofun
  | token hmore hform _ hrest =>
    rw [← List.append_assoc]
    exact .token (hgap.append hmore) hform nofun hrest

theorem Gap.apart (hgap : Gap gap) {tail : List Char} {bare : Bool} (hends : Ends (gap ++ tail))
    (hbare : gap = [] → bare = false) : Apart gap bare := by
  cases hgap with
  | nil => exact hbare rfl
  | blank hc => exact hc
  | comment => exact absurd (hends '/' rfl) (by decide)

/-- What starts with an end of a bare word may stand behind a bare word. -/
theorem WellFormed.behind_bare (h : WellFormed false signs cs) (hends : Ends cs) :
    WellFormed true signs cs := by
  cases h with
  | @finish _ gap tail hgap htail _ =>
    refine .finish hgap htail fun _ => hgap.apart hends ?_
    rintro rfl
    cases htail with
    | none => rfl
    | comment => exact absurd (hends '/' rfl) (by decide)
  | @token _ bare sign signs gap cs rest hgap hform _ hrest =>
    refine .token hgap hform (fun _ => hgap.apart hends ?_) hrest
    rintro rfl
    cases hform with
    | opens => rfl
    | closes => rfl
    | quoted => rfl
    | bare hb =>
      cases cs with
      | nil => exact absurd rfl hb.ne_nil
      | cons c word => exact absurd (hends c rfl) (by simp [hb.whole c List.mem_cons_self])

theorem Reads.behind_bare (h : Reads false signs cs) (hends : Ends cs) : Reads true signs cs := by
  rcases h with h | ⟨before, rfl, h⟩
  · exact .inl (h.behind_bare hends)
  · refine .inr ⟨before, rfl, h.behind_bare ?_⟩
    cases before with
    | nil => exact absurd (hends '\\' rfl) (by decide)
    | cons c before => exact ends_cons (hends c rfl)

theorem Reads.token {bare : Bool} (hform : Form sign bare cs) (h : Reads bare signs rest) :
    Reads false (sign :: signs) (cs ++ rest) :=
  h.lift fun _ hrest => .token .nil hform nofun hrest

theorem Reads.prepend_gap (hgap : Gap gap) (h : Reads false signs rest) :
    Reads false signs (gap ++ rest) :=
  h.lift fun _ hrest => hrest.prepend_gap hgap

theorem Reads.nil (after : Bool) : Reads after [] [] :=
  .inl (.finish .nil .none fun _ => rfl)

theorem Enclosed.append {word' body' : List Char} (h : Enclosed word body)
    (h' : Enclosed word' body') : Enclosed (word ++ word') (body ++ body') := by
  induction h with
  | nil => exact h'
  | plain hquote hslash _ ih => exact .plain hquote hslash ih
  | escaped _ ih => exact .escaped ih

/-- `Leads place pre`: what was read of a token, or of a comment, when the reader is at a place. -/
inductive Leads : Place → List Char → Prop where
  | gap : Leads .gap []
  | slash : Leads .slash ['/']
  | comment {body : List Char} : '\n' ∉ body → Leads .comment ('/' :: '/' :: body)
  | bare {seen : List Char} : IsBare seen.reverse → Leads (.bare seen) seen.reverse
  | quoted {start : Nat} {seen body : List Char} : Enclosed seen.reverse body →
      Leads (.quoted start seen) ('"' :: body)
  | escaped {start : Nat} {seen body : List Char} : Enclosed seen.reverse body →
      Leads (.escaped start seen) ('"' :: (body ++ ['\\']))

/-- Where a reader between tokens goes from a character. -/
theorem startToken_cases (line : Nat) (c : Char) :
    (Text.isBlank c = true ∧ startToken line c = (.gap, none)) ∨
    (∃ sign, Form sign false [c] ∧ startToken line c = (.gap, some (sign.at line))) ∨
    (∃ place, Leads place [c] ∧ startToken line c = (place, none)) := by
  by_cases hblank : Text.isBlank c = true
  · exact .inl ⟨hblank, startToken_of_blank hblank⟩
  by_cases hopen : c = '{'
  · subst hopen
    exact .inr (.inl ⟨.opens, .opens, rfl⟩)
  by_cases hclose : c = '}'
  · subst hclose
    exact .inr (.inl ⟨.closes, .closes, rfl⟩)
  by_cases hslash : c = '/'
  · subst hslash
    exact .inr (.inr ⟨.slash, .slash, rfl⟩)
  by_cases hquote : c = '"'
  · subst hquote
    exact .inr (.inr ⟨.quoted line [], .quoted .nil, rfl⟩)
  · have hbare : isBareEnd c = false := by
      simp [isBareEnd, hblank, hopen, hclose, hquote]
    refine .inr (.inr ⟨.bare [c], .bare ⟨List.cons_ne_nil _ _, ?_, ?_⟩,
      startToken_of_bare hbare hslash⟩)
    · exact fun h => hslash (Option.some.inj h)
    · simpa using hbare

theorem exists_of_map_ok {α β : Type} {e : Except Error α} {f : α → β} {b : β}
    (h : e.map f = .ok b) : ∃ a, e = .ok a ∧ f a = b := by
  cases e with
  | error => exact nomatch h
  | ok a => exact ⟨a, rfl, Except.ok.inj h⟩

/-- **Accepted tokens are those of a well-formed text**, up to a backslash that the text ends in.
The induction is on what is left to read; `pre` is what the reader has of the token it is in. -/
theorem reads_of_tokensFrom {line : Nat} {place : Place} {pre : List Char}
    (hlead : Leads place pre) (hts : tokensFrom line place cs = .ok ts) :
    Reads false (ts.map Token.sign) (pre ++ cs) := by
  induction cs generalizing line place pre ts with
  | nil =>
    rw [List.append_nil]
    cases hlead with
    | gap =>
      obtain rfl := Except.ok.inj hts
      exact .nil _
    | slash => cases hts
    | comment hbody =>
      obtain rfl := Except.ok.inj hts
      exact .inl (.finish .nil (.comment hbody) (by simp))
    | bare hb =>
      obtain rfl := Except.ok.inj hts
      simpa [Token.sign] using Reads.token (.bare hb) (.nil true)
    | quoted => cases hts
    | @escaped start seen body hbody =>
      obtain rfl := Except.ok.inj hts
      have hclosed : WellFormed false [.word seen.reverse] ([] ++ ('"' :: (body ++ ['"']) ++ [])) :=
        .token .nil (.quoted hbody) (by simp) (.finish .nil .none (by simp))
      exact .inr ⟨'"' :: body, rfl, by simpa [Token.sign] using hclosed⟩
  | cons c rest ih =>
    -- a bare word ends in front of what is read as if it stood after a gap, so that comes first
    have hgap : ∀ {line ts}, KeyValues.tokensFrom line .gap (c :: rest) = .ok ts →
        Reads false (ts.map Token.sign) (c :: rest) := by
      intro line ts hts
      rw [KeyValues.tokensFrom] at hts
      rcases startToken_cases line c with ⟨hblank, hstart⟩ | ⟨sign, hform, hstart⟩ |
          ⟨place, hlead, hstart⟩ <;> rw [hstart] at hts
      · exact (ih .gap hts).prepend_gap (.blank hblank .nil)
      · obtain ⟨ts', hts', rfl⟩ := exists_of_map_ok hts
        simpa using Reads.token hform (ih .gap hts')
      · exact ih hlead hts
    cases hlead with
    | gap => exact hgap hts
    | slash =>
      rw [KeyValues.tokensFrom] at hts
      split at hts
      · next hc =>
        subst hc
        exact ih (.comment (List.not_mem_nil)) hts
      · cases hts
    | @comment body hbody =>
      rw [KeyValues.tokensFrom] at hts
      split at hts
      · next hc =>
        subst hc
        simpa using (ih .gap hts).prepend_gap (.comment hbody .nil)
      · next hc =>
        have hmore : '\n' ∉ body ++ [c] := by simp [hbody, Ne.symm hc]
        simpa using ih (.comment hmore) hts
    | @bare seen hb =>
      by_cases hc : isBareEnd c = true
      · rw [tokensFrom_of_ends (ends_cons hc)] at hts
        obtain ⟨ts', hts', rfl⟩ := exists_of_map_ok hts
        exact .token (.bare hb) ((hgap hts').behind_bare (ends_cons hc))
      · rw [KeyValues.tokensFrom, if_neg hc] at hts
        have hmore : IsBare (c :: seen).reverse := by
          rw [List.reverse_cons]
          refine ⟨by simp, ?_, ?_⟩
          · rw [List.head?_append_of_ne_nil _ hb.ne_nil]
            exact hb.no_slash
          · intro d hd
            rcases List.mem_append.mp hd with hd | hd
            · exact hb.whole d hd
            · obtain rfl := List.mem_singleton.mp hd
              simpa using hc
        simpa using ih (.bare hmore) hts
    | @quoted start seen body hbody =>
      rw [KeyValues.tokensFrom] at hts
      split at hts
      · next hc =>
        subst hc
        obtain ⟨ts', hts', rfl⟩ := exists_of_map_ok hts
        simpa [Token.sign] using Reads.token (.quoted hbody) (ih .gap hts')
      · next hquote =>
        split at hts
        · next hc =>
          subst hc
          simpa using ih (.escaped hbody) hts
        · next hslash =>
          have hmore : Enclosed (c :: seen).reverse (body ++ [c]) := by
            rw [List.reverse_cons]
            exact hbody.append (.plain hquote hslash .nil)
          simpa using ih (.quoted hmore) hts
    | @escaped start seen body hbody =>
      rw [KeyValues.tokensFrom] at hts
      have hmore : Enclosed (unescape c :: seen).reverse (body ++ ['\\', c]) := by
        rw [List.reverse_cons]
        exact hbody.append (.escaped .nil)
      simpa using ih (.quoted hmore) hts

end

/-! ## 4. The tokens of an accepted tree -/

/-- What the tokens in front of a block say that is still open. -/
def opened : List Frame → List Sign
  | [] => []
  | f :: frames => opened frames ++ (signs f.before.reverse ++ [.word f.key.toList, .opens])

theorem signs_append (tree tree' : KeyValues) :
    signs (tree ++ tree') = signs tree ++ signs tree' := by
  induction tree with
  | nil => rfl
  | cons entry tree ih => simp [signs, KeyValue.signs.ofEntries] at ih ⊢; exact ih

/-- What one more entry says. -/
theorem signs_reverse_cons (key : String) (value : KeyValue) (seen : KeyValues) :
    signs ((key, value) :: seen).reverse
      = signs seen.reverse ++ .word key.toList :: value.signs := by
  rw [List.reverse_cons, signs_append]
  simp [signs, KeyValue.signs.ofEntries]

/-- **Tokens that are built into a tree say what the tree says.**  The induction is on the tokens
left; what was read before them is in the frames and in the entries seen. -/
theorem signs_of_build {frames : List Frame} {seen tree : KeyValues} {last : Nat}
    {ts : List Token} (h : build frames seen last ts = .ok tree) :
    signs tree = opened frames ++ (signs seen.reverse ++ ts.map Token.sign) := by
  fun_induction build frames seen last ts with
  | case1 seen =>
    obtain rfl := Except.ok.inj h
    simp [opened]
  | case4 seen _ _ rest f frames ih =>
    rw [ih h, signs_reverse_cons]
    simp [opened, Token.sign, KeyValue.signs]
  | case6 frames seen _ _ _ key text _ rest ih =>
    rw [ih h, signs_reverse_cons]
    simp [Token.sign, KeyValue.signs, key]
  | case7 frames seen _ _ _ key _ rest ih =>
    rw [ih h]
    simp [opened, Token.sign, signs, KeyValue.signs.ofEntries, key]
  | case2 | case3 | case5 | case8 | case9 => exact nomatch h

/-- Tokens that say what a tree says are read as that tree. -/
theorem parse_of_tokens {text : String} {tree : KeyValues} {ts : List Token}
    (hts : tokens text.toList = .ok ts) (hsigns : ts.map Token.sign = signs tree) :
    parse text = .ok tree := by
  obtain ⟨last, hbuild⟩ := build_entries tree ts hsigns [] [] 1 []
  rw [List.append_nil, List.append_nil] at hbuild
  rw [parse, hts]
  show build [] [] 1 ts = .ok tree
  rw [hbuild, build, List.reverse_reverse]

theorem tokens_of_parse {text : String} {tree : KeyValues} (h : parse text = .ok tree) :
    ∃ ts, tokens text.toList = .ok ts ∧ ts.map Token.sign = signs tree := by
  rw [parse] at h
  cases hts : tokens text.toList with
  | error e =>
    rw [hts] at h
    exact nomatch h
  | ok ts =>
    rw [hts] at h
    refine ⟨ts, rfl, ?_⟩
    have hbuild : build [] [] 1 ts = .ok tree := h
    simpa [opened, signs, KeyValue.signs.ofEntries] using (signs_of_build hbuild).symm

/-! ## 5. A backslash that a text ends in -/

/-- One character either ends the reading in an error, whatever follows it, or moves the reader to
another place. -/
theorem tokensFrom_cons (line : Nat) (place : Place) (c : Char) :
    (∃ e, ∀ rest, tokensFrom line place (c :: rest) = .error e) ∨
    ∃ line' place' f, ∀ rest,
      tokensFrom line place (c :: rest) = (tokensFrom line' place' rest).map f := by
  have stays {place : Place} {line' : Nat} {place' : Place}
      (h : ∀ rest, tokensFrom line place (c :: rest) = tokensFrom line' place' rest) :
      ∃ line' place' f, ∀ rest,
        tokensFrom line place (c :: rest) = (tokensFrom line' place' rest).map f :=
    ⟨line', place', id, fun rest => by rw [h, Except.map_id]; rfl⟩
  have hgap : ∃ line' place' f, ∀ rest,
      tokensFrom line .gap (c :: rest) = (tokensFrom line' place' rest).map f := by
    rcases hstart : startToken line c with ⟨place', _ | token⟩
    · exact stays fun rest => by rw [tokensFrom, hstart]
    · exact ⟨_, place', (token :: ·), fun rest => by rw [tokensFrom, hstart]⟩
  cases place with
  | gap => exact .inr hgap
  | slash =>
    by_cases hc : c = '/'
    · exact .inr (stays fun rest => by rw [tokensFrom, if_pos hc])
    · exact .inl ⟨_, fun rest => by rw [tokensFrom, if_neg hc]⟩
  | comment =>
    by_cases hc : c = '\n'
    · exact .inr (stays fun rest => by rw [tokensFrom, if_pos hc])
    · exact .inr (stays fun rest => by rw [tokensFrom, if_neg hc])
  | bare seen =>
    by_cases hc : isBareEnd c = true
    · obtain ⟨line', place', f, hmove⟩ := hgap
      refine .inr ⟨line', place', fun ts => .word seen.reverse line :: f ts, fun rest => ?_⟩
      rw [tokensFrom_of_ends (ends_cons hc), hmove]
      cases tokensFrom line' place' rest <;> rfl
    · exact .inr (stays fun rest => by rw [tokensFrom, if_neg hc])
  | quoted start seen =>
    by_cases hquote : c = '"'
    · exact .inr ⟨_, .gap, _, fun rest => by rw [tokensFrom, if_pos hquote]⟩
    by_cases hslash : c = '\\'
    · exact .inr (stays fun rest => by rw [tokensFrom, if_neg hquote, if_pos hslash])
    · exact .inr (stays fun rest => by rw [tokensFrom, if_neg hquote, if_neg hslash])
  | escaped start seen => exact .inr (stays fun rest => by rw [tokensFrom])

/-- **A final backslash is read as a closing quote**, where a quote would have been one. -/
theorem tokensFrom_mended {line : Nat} {place : Place} {before : List Char} {ts : List Token}
    (h : tokensFrom line place (before ++ ['"']) = .ok ts) :
    tokensFrom line place (before ++ ['\\']) = .ok ts := by
  induction before generalizing line place ts with
  | nil =>
    cases place with
    | comment => exact h
    | quoted => exact h
    | gap | slash | bare | escaped => exact nomatch h
  | cons c before ih =>
    rw [List.cons_append] at h ⊢
    rcases tokensFrom_cons line place c with ⟨e, herror⟩ | ⟨line', place', f, hmove⟩
    · rw [herror] at h
      exact nomatch h
    · rw [hmove] at h ⊢
      obtain ⟨ts', hts', rfl⟩ := exists_of_map_ok h
      rw [ih hts']
      rfl

/-- **Reading accepts exactly the well-formed texts**, and those that would be well formed with a
closing quote in place of the backslash that they end in. -/
theorem parse_eq_ok_iff (text : String) (tree : KeyValues) :
    parse text = .ok tree ↔ Formed tree text ∨
      ∃ before : String, text = before ++ "\\" ∧ Formed tree (before ++ "\"") := by
  constructor
  · intro h
    obtain ⟨ts, hts, hsigns⟩ := tokens_of_parse h
    have hreads : Reads false (ts.map Token.sign) ([] ++ text.toList) :=
      reads_of_tokensFrom .gap hts
    rw [hsigns] at hreads
    rcases hreads with hformed | ⟨before, htext, hformed⟩
    · exact .inl hformed
    · refine .inr ⟨String.ofList before, ?_, ?_⟩
      · rw [← String.toList_inj, String.toList_append, String.toList_ofList]
        exact htext
      · simpa [Formed] using hformed
  · rintro (hformed | ⟨before, rfl, hformed⟩)
    · obtain ⟨ts, hts, hsigns⟩ := WellFormed.tokensFrom hformed 1 (.inl rfl)
      rw [List.append_nil] at hts
      exact parse_of_tokens hts hsigns
    · obtain ⟨ts, hts, hsigns⟩ := WellFormed.tokensFrom hformed 1 (.inl rfl)
      rw [List.append_nil, String.toList_append] at hts
      have hmended : tokens (before ++ "\\").toList = .ok ts := by
        rw [String.toList_append]
        exact tokensFrom_mended hts
      exact parse_of_tokens hmended hsigns

/-- A text that ends behind a backslash in a word that no quote closes. -/
def brokenOff : String := "a \"b\\"

/-- It is accepted, and no tree makes it well formed. -/
theorem broken_off_accepted :
    parse brokenOff = .ok [("a", .text "b")] ∧ ∀ tree, ¬ Formed tree brokenOff := by
  refine ⟨by rfl, fun tree hformed => ?_⟩
  obtain ⟨ts, hts, -⟩ := WellFormed.tokensFrom hformed 1 (.inr rfl)
  have herror : tokensFrom 1 .gap (brokenOff.toList ++ ['\n']) = .error ⟨1, .openQuote⟩ := by rfl
  rw [herror] at hts
  exact nomatch hts

end ServerWarden.KeyValues
