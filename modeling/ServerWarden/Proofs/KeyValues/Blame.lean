/-
# Which line is blamed

A text that is refused is refused for one of its tokens, and the error has the line of that token.
`Blames text problem before n` says which token it is, by what stands in front of it: a slash that
starts no comment, the quote of a word that is never closed, or the token at which the text stops
being entries (`Fault`).  It is a statement about the text alone: `Ahead` takes what is in front of
the token apart into tokens and gaps, and `KeyValues.signs` is what whole entries say.

* `scans` says what the reader makes of any text between two tokens, one case for each way in which
  a text may go on.  `blames_of_tokensFrom` and `faces_of_tokensFrom` go along a text with it, and
  `Ahead.tokensFrom` goes back.
* `fault_of_build` and `Fault.build` do the same for the tokens.
* `parse_eq_error_iff` says that the line of an error is that of the blamed token, less the newlines
  in front of it that stand in quotes behind a backslash.  Those are not counted, which is a fault
  of the reader: every other newline is, in quotes and out of them.  `escaped_newline_not_counted`
  is a text of two lines whose error is said to be on the first.
-/
import ServerWarden.Proofs.KeyValues.Acceptance

namespace ServerWarden.KeyValues

/-! ## 1. The blamed token -/

/-- `Ahead signs n bare cs`: `cs` is tokens that say `signs` with gaps around them, and another
token may follow; in a bare word's place only one that is none, if `bare`.  `n` newlines are
hidden. -/
inductive Ahead : List Sign → Nat → Bool → List Char → Prop where
  | start : Ahead [] 0 false []
  | blank {signs : List Sign} {n : Nat} {bare : Bool} {cs : List Char} {c : Char} :
      Ahead signs n bare cs → Text.isBlank c = true → Ahead signs n false (cs ++ [c])
  | comment {signs : List Sign} {n : Nat} {cs body : List Char} :
      Ahead signs n false cs → '\n' ∉ body →
      Ahead signs n false (cs ++ '/' :: '/' :: (body ++ ['\n']))
  | token {signs : List Sign} {sign : Sign} {n : Nat} {after bare : Bool} {cs form : List Char} :
      Ahead signs n after cs → Form sign bare form → (after = true → bare = false) →
      Ahead (signs ++ [sign]) (n + hidden form) bare (cs ++ form)

/-- `Faces after sign more cs`: a token that says `sign` stands at the front of `cs`, possibly
behind a bare word, and tokens that say `more` come after it. -/
inductive Faces (after : Bool) : Sign → List Sign → List Char → Prop where
  | whole {bare : Bool} {sign : Sign} {more : List Sign} {form rest : List Char} :
      Form sign bare form → (after = true → bare = false) → (bare = true → Ends rest) →
      Reads false more rest → Faces after sign more (form ++ rest)
  /-- It is a word in quotes in which the text breaks off. -/
  | brokenOff {word body : List Char} : Enclosed word body →
      Faces after (.word word) [] ('"' :: (body ++ ['\\']))

/-- `Fault before sign more problem`: tokens that say `before` are the beginning of a tree, and the
next, which says `sign`, cannot go on with it, or cannot be the last. -/
inductive Fault : List Sign → Sign → List Sign → Problem → Prop where
  /-- No block is open that the brace could close. -/
  | strayClose {entries : KeyValues} {more : List Sign} :
      Fault (signs entries) .closes more .strayClose
  /-- A brace stands in the place of a key. -/
  | keyIsOpen {frames : List Frame} {entries : KeyValues} {more : List Sign} :
      Fault (opened frames ++ signs entries) .opens more .keyIsOpen
  /-- The block is closed behind a key. -/
  | noValue {frames : List Frame} {entries : KeyValues} {key : List Char} {more : List Sign} :
      Fault (opened frames ++ (signs entries ++ [.word key])) .closes more
        (.noValue (String.ofList key))
  /-- The text ends behind a key. -/
  | lastKey {frames : List Frame} {entries : KeyValues} {key : List Char} :
      Fault (opened frames ++ signs entries) (.word key) [] (.noValue (String.ofList key))
  /-- The text ends in a block. -/
  | missingClose {frame : Frame} {frames : List Frame} {entries : KeyValues} {before : List Sign}
      {last : Sign} : before ++ [last] = opened (frame :: frames) ++ signs entries →
      Fault before last [] .missingClose

/-- **`Blames text problem before n`**: the token to blame for a problem starts behind `before`, in
which `n` newlines are hidden. -/
inductive Blames : List Char → Problem → List Char → Nat → Prop where
  | straySlash {signs : List Sign} {n : Nat} {before rest : List Char} :
      Ahead signs n false before → rest.head? ≠ some '/' →
      Blames (before ++ '/' :: rest) .straySlash before n
  | openQuote {signs : List Sign} {n : Nat} {after : Bool} {before word body : List Char} :
      Ahead signs n after before → Enclosed word body →
      Blames (before ++ '"' :: body) .openQuote before n
  | token {signs more : List Sign} {sign : Sign} {problem : Problem} {n : Nat} {after : Bool}
      {before cs : List Char} : Ahead signs n after before → Faces after sign more cs →
      Fault signs sign more problem → Blames (before ++ cs) problem before n

/-! ## 2. How a text may go on -/

/-- **`Scans line cs result`**: what a reader between two tokens, on a line, finds in `cs`. -/
inductive Scans (line : Nat) : List Char → Except Error (List Token) → Prop where
  | finish {gap tail : List Char} : Gap gap → Remark tail → Scans line (gap ++ tail) (.ok [])
  | straySlash {gap rest : List Char} : Gap gap → rest.head? ≠ some '/' →
      Scans line (gap ++ '/' :: rest) (.error ⟨line + gap.count '\n', .straySlash⟩)
  | openQuote {gap word body : List Char} : Gap gap → Enclosed word body →
      Scans line (gap ++ '"' :: body) (.error ⟨line + gap.count '\n', .openQuote⟩)
  | brokenOff {gap word body : List Char} : Gap gap → Enclosed word body →
      Scans line (gap ++ '"' :: (body ++ ['\\'])) (.ok [.word word (line + gap.count '\n')])
  | token {line' : Nat} {gap form rest : List Char} {sign : Sign} {bare : Bool} :
      Gap gap → Form sign bare form → (bare = true → Ends rest) →
      line' + hidden form = line + gap.count '\n' + form.count '\n' →
      Scans line (gap ++ (form ++ rest))
        ((tokensFrom line' .gap rest).map (sign.at (line + gap.count '\n') :: ·))

section

variable {line n : Nat} {c : Char} {word body gap form cs rest before : List Char} {sign : Sign}
  {signs more : List Sign} {ts later : List Token} {t : Token} {bare after : Bool}
  {result : Except Error (List Token)} {e : Error} {problem : Problem}

theorem Scans.prepend_gap (hgap : Gap gap) (h : Scans (line + gap.count '\n') cs result) :
    Scans line (gap ++ cs) result := by
  cases h with
  | finish hmore htail =>
    rw [← List.append_assoc]
    exact .finish (hgap.append hmore) htail
  | straySlash hmore hslash =>
    rw [← List.append_assoc, Nat.add_assoc, ← List.count_append]
    exact .straySlash (hgap.append hmore) hslash
  | openQuote hmore hbody =>
    rw [← List.append_assoc, Nat.add_assoc, ← List.count_append]
    exact .openQuote (hgap.append hmore) hbody
  | brokenOff hmore hbody =>
    rw [← List.append_assoc, Nat.add_assoc, ← List.count_append]
    exact .brokenOff (hgap.append hmore) hbody
  | token hmore hform hends hline =>
    rw [Nat.add_assoc line, ← List.count_append] at hline ⊢
    rw [← List.append_assoc]
    exact .token (hgap.append hmore) hform hends hline

theorem Form.scans (h : Form sign bare form) (hends : bare = true → Ends rest) (line : Nat) :
    Scans line (form ++ rest) (KeyValues.tokensFrom line .gap (form ++ rest)) := by
  obtain ⟨line', hline, hread⟩ := h.tokensFrom hends line
  rw [hread]
  exact .token .nil h hends hline

/-- Behind a quote, a text is a word that is closed, or is never closed, or breaks off. -/
theorem enclosed_cases (cs : List Char) :
    (∃ word body rest, Enclosed word body ∧ cs = body ++ '"' :: rest) ∨
    (∃ word, Enclosed word cs) ∨ ∃ word body, Enclosed word body ∧ cs = body ++ ['\\'] := by
  induction hlen : cs.length using Nat.strongRecOn generalizing cs with
  | ind len ih =>
    -- the first character, or the first two, go in front of what is found behind them
    have before (pre rest : List Char) (hpre : 0 < pre.length) (hcs : cs = pre ++ rest)
        (d : Char) (hd : ∀ {word body}, Enclosed word body → Enclosed (d :: word) (pre ++ body)) :
        (∃ word body rest, Enclosed word body ∧ cs = body ++ '"' :: rest) ∨
        (∃ word, Enclosed word cs) ∨ ∃ word body, Enclosed word body ∧ cs = body ++ ['\\'] := by
      subst hcs
      rw [List.length_append] at hlen
      rcases ih rest.length (by omega) rest rfl with ⟨word, body, more, hbody, rfl⟩ |
        ⟨word, hbody⟩ | ⟨word, body, hbody, rfl⟩
      · exact .inl ⟨d :: word, pre ++ body, more, hd hbody, (List.append_assoc ..).symm⟩
      · exact .inr (.inl ⟨d :: word, hd hbody⟩)
      · exact .inr (.inr ⟨d :: word, pre ++ body, hd hbody, (List.append_assoc ..).symm⟩)
    cases cs with
    | nil => exact .inr (.inl ⟨[], .nil⟩)
    | cons c rest =>
      by_cases hquote : c = '"'
      · subst hquote
        exact .inl ⟨[], [], rest, .nil, rfl⟩
      by_cases hslash : c = '\\'
      · subst hslash
        cases rest with
        | nil => exact .inr (.inr ⟨[], [], .nil, rfl⟩)
        | cons d rest => exact before ['\\', d] rest (Nat.zero_lt_succ _) rfl (unescape d) .escaped
      · exact before [c] rest (Nat.zero_lt_succ _) rfl c (.plain hquote hslash)

theorem tokensFrom_open (h : Enclosed word body) (line : Nat) :
    tokensFrom line .gap ('"' :: body) = .error ⟨line, .openQuote⟩ := by
  obtain ⟨line', -, hread⟩ := h.tokensFrom line line [] []
  rw [List.append_nil] at hread
  exact hread

theorem tokensFrom_brokenOff (h : Enclosed word body) (line : Nat) :
    tokensFrom line .gap ('"' :: (body ++ ['\\'])) = .ok [.word word line] := by
  obtain ⟨line', -, hread⟩ := h.tokensFrom line line [] ['\\']
  have hbroken : tokensFrom line' (.quoted line (word.reverse ++ [])) ['\\']
      = .ok [.word (word.reverse ++ []).reverse line] := by
    rfl
  rw [hbroken, List.append_nil, List.reverse_reverse] at hread
  exact hread

theorem tokensFrom_slash (h : rest.head? ≠ some '/') (line : Nat) :
    tokensFrom line .gap ('/' :: rest) = .error ⟨line, .straySlash⟩ := by
  cases rest with
  | nil => rfl
  | cons d rest =>
    have hd : d ≠ '/' := fun hd => h (congrArg some hd)
    show tokensFrom line .slash (d :: rest) = _
    rw [tokensFrom, if_neg hd]

/-- Behind a quote. -/
theorem scans_quote (line : Nat) (cs : List Char) :
    Scans line ('"' :: cs) (tokensFrom line .gap ('"' :: cs)) := by
  rcases enclosed_cases cs with ⟨word, body, rest, hbody, rfl⟩ | ⟨word, hbody⟩ |
    ⟨word, body, hbody, rfl⟩
  · have hends : false = true → Ends rest := nofun
    simpa using (Form.quoted hbody).scans hends line
  · rw [tokensFrom_open hbody]
    exact .openQuote .nil hbody
  · rw [tokensFrom_brokenOff hbody]
    exact .brokenOff .nil hbody

/-- Behind a character that starts a bare word. -/
theorem scans_bare (line : Nat) (hc : isBareEnd c = false) (hslash : c ≠ '/') (cs : List Char) :
    Scans line (c :: cs) (tokensFrom line .gap (c :: cs)) := by
  have hword : IsBare (c :: cs.takeWhile fun d => !isBareEnd d) := by
    refine ⟨List.cons_ne_nil _ _, fun h => hslash (Option.some.inj h), fun d hd => ?_⟩
    rcases List.mem_cons.mp hd with rfl | hd
    · exact hc
    · simpa using List.all_eq_true.mp List.all_takeWhile d hd
  have hends : Ends (cs.dropWhile fun d => !isBareEnd d) := by
    intro d hd
    have hfirst := List.head?_dropWhile_not (fun d => !isBareEnd d) cs
    rw [hd] at hfirst
    simpa using hfirst
  have hform := (Form.bare hword).scans (fun _ => hends) line
  rwa [List.cons_append, List.takeWhile_append_dropWhile] at hform

/-- **What a reader between two tokens makes of a text** is what it has to find there. -/
theorem scans (line : Nat) (cs : List Char) : Scans line cs (tokensFrom line .gap cs) := by
  induction hlen : cs.length using Nat.strongRecOn generalizing line cs with
  | ind len ih =>
    cases cs with
    | nil => exact .finish .nil .none
    | cons c rest =>
      rw [List.length_cons] at hlen
      by_cases hblank : Text.isBlank c = true
      · rw [tokensFrom_blank hblank]
        exact (ih rest.length (by omega) _ rest rfl).prepend_gap (.blank hblank .nil)
      by_cases hopen : c = '\x7b'
      · subst hopen
        exact Form.opens.scans nofun line
      by_cases hclose : c = '\x7d'
      · subst hclose
        exact Form.closes.scans nofun line
      by_cases hquote : c = '"'
      · subst hquote
        exact scans_quote line rest
      by_cases hslash : c = '/'
      · subst hslash
        by_cases hsecond : rest.head? = some '/'
        · obtain ⟨body, rfl⟩ := List.head?_eq_some_iff.mp hsecond
          by_cases hn : '\n' ∈ body
          · obtain ⟨comment, rest, rfl, hcomment⟩ := List.eq_append_cons_of_mem hn
            have hgap : Gap ('/' :: '/' :: (comment ++ ['\n'])) := .comment hcomment .nil
            have hread : tokensFrom line .gap ('/' :: '/' :: (comment ++ ['\n']) ++ rest)
                = tokensFrom (line + ('/' :: '/' :: (comment ++ ['\n'])).count '\n') .gap rest :=
              hgap.tokensFrom
            have hrest := ih rest.length (by simp at hlen; omega)
              (line + ('/' :: '/' :: (comment ++ ['\n'])).count '\n') rest rfl
            rw [← hread] at hrest
            simpa using hrest.prepend_gap hgap
          · have hremark : Remark ('/' :: '/' :: body) := .comment hn
            have hread := hremark.tokensFrom line (.inl rfl)
            rw [List.append_nil] at hread
            rw [hread]
            exact .finish .nil hremark
        · rw [tokensFrom_slash hsecond]
          exact .straySlash .nil hsecond
      · have hbare : isBareEnd c = false := by simp [isBareEnd, hblank, hopen, hclose, hquote]
        exact scans_bare line hbare hslash rest

/-! ## 3. The token that a reader of tokens blames, and where each token stands -/

/-- The first token behind a gap is found with the gap in front of it. -/
theorem Ahead.append_gap (h : Ahead signs n bare before) (hgap : Gap gap)
    (hends : bare = true → Ends (gap ++ rest)) :
    ∃ bare', Ahead signs n bare' (before ++ gap) ∧ (bare' = true → Ends rest) := by
  induction hgap generalizing bare before with
  | nil => exact ⟨bare, by rwa [List.append_nil], hends⟩
  | @blank c gap hc _ ih =>
    obtain ⟨bare', hahead, hends'⟩ := ih (h.blank hc) nofun
    exact ⟨bare', by simpa using hahead, hends'⟩
  | @comment body gap hbody _ ih =>
    cases bare with
    | true => exact absurd (hends rfl '/' rfl) (by decide)
    | false =>
      obtain ⟨bare', hahead, hends'⟩ := ih (h.comment hbody) nofun
      exact ⟨bare', by simpa using hahead, hends'⟩

theorem Form.length_pos (h : Form sign bare form) : 0 < form.length := by
  cases h with
  | bare hb => exact List.length_pos_iff.mpr hb.ne_nil
  | _ => exact Nat.zero_lt_succ _

/-- What ends a bare word starts no bare word. -/
theorem Form.not_bare (h : Form sign bare form) (hends : Ends (form ++ rest)) : bare = false := by
  cases h with
  | bare hb =>
    cases form with
    | nil => exact absurd rfl hb.ne_nil
    | cons c word => exact absurd (hends c rfl) (by simp [hb.whole c List.mem_cons_self])
  | _ => rfl

/-- **A text whose tokens are refused** is blamed for one of them. -/
theorem blames_of_tokensFrom (h : tokensFrom line .gap cs = .error e)
    (hahead : Ahead signs n bare before) (hends : bare = true → Ends cs)
    (hline : line + n = 1 + before.count '\n') :
    ∃ front lost, Blames (before ++ cs) e.problem front lost ∧
      e.line + lost = 1 + front.count '\n' := by
  induction hlen : cs.length using Nat.strongRecOn generalizing line cs before signs n bare with
  | ind len ih =>
    have hscans := scans line cs
    rw [h] at hscans
    generalize hresult : (Except.error e : Except Error (List Token)) = result at hscans
    cases hscans with
    | finish => exact nomatch hresult
    | brokenOff => exact nomatch hresult
    | @straySlash gap rest hgap hslash =>
      cases hresult
      obtain ⟨bare', hfront, hbare⟩ := hahead.append_gap hgap hends
      cases bare' with
      | true => exact absurd (hbare rfl '/' rfl) (by decide)
      | false =>
        refine ⟨before ++ gap, n, ?_, ?_⟩
        · rw [← List.append_assoc]
          exact .straySlash hfront hslash
        · rw [List.count_append]
          show line + gap.count '\n' + n = _
          omega
    | @openQuote gap word body hgap hbody =>
      cases hresult
      obtain ⟨bare', hfront, -⟩ := hahead.append_gap hgap hends
      refine ⟨before ++ gap, n, ?_, ?_⟩
      · rw [← List.append_assoc]
        exact .openQuote hfront hbody
      · rw [List.count_append]
        show line + gap.count '\n' + n = _
        omega
    | @token line' gap form rest sign bare₁ hgap hform hends₁ hline₁ =>
      obtain ⟨bare', hfront, hbare⟩ := hahead.append_gap hgap hends
      have hread : tokensFrom line' .gap rest = .error e := by
        cases hrest : tokensFrom line' .gap rest with
        | ok ts =>
          rw [hrest] at hresult
          exact nomatch hresult
        | error e' =>
          rw [hrest] at hresult
          cases hresult
          rfl
      have hnext := hfront.token hform fun hb => hform.not_bare (hbare hb)
      have hpos := hform.length_pos
      rw [List.append_assoc] at hnext
      have hless : rest.length < len := by
        simp only [List.length_append] at hlen
        omega
      have hfound := ih rest.length hless hread hnext hends₁ (by
        simp only [List.count_append]
        omega) rfl
      simpa using hfound

/-- **Where a token stands**, in a text whose tokens are read. -/
theorem faces_of_tokensFrom (h : tokensFrom line .gap cs = .ok (ts ++ t :: later))
    (hahead : Ahead signs n bare before) (hends : bare = true → Ends cs)
    (hline : line + n = 1 + before.count '\n') :
    ∃ front lost after rest, before ++ cs = front ++ rest ∧
      Ahead (signs ++ ts.map Token.sign) lost after front ∧
      Faces after t.sign (later.map Token.sign) rest ∧
      t.line + lost = 1 + front.count '\n' := by
  induction ts generalizing line cs before signs n bare with
  | nil =>
    have hscans := scans line cs
    rw [h] at hscans
    generalize hresult : (Except.ok ([] ++ t :: later) : Except Error (List Token)) = result
      at hscans
    cases hscans with
    | finish => exact nomatch hresult
    | straySlash => exact nomatch hresult
    | openQuote => exact nomatch hresult
    | @brokenOff gap word body hgap hbody =>
      cases hresult
      obtain ⟨bare', hfront, -⟩ := hahead.append_gap hgap hends
      refine ⟨before ++ gap, n, bare', _, (List.append_assoc ..).symm, ?_, .brokenOff hbody, ?_⟩
      · simpa using hfront
      · rw [List.count_append]
        show line + gap.count '\n' + n = _
        omega
    | @token line' gap form rest sign bare₁ hgap hform hends₁ hline₁ =>
      obtain ⟨bare', hfront, hbare⟩ := hahead.append_gap hgap hends
      obtain ⟨later', hread, hcons⟩ := exists_of_map_ok hresult.symm
      cases hcons
      refine ⟨before ++ gap, n, bare', _, (List.append_assoc ..).symm, by simpa using hfront,
        ?_, ?_⟩
      · rw [Sign.sign_at]
        exact .whole hform (fun hb => hform.not_bare (hbare hb)) hends₁
          (reads_of_tokensFrom .gap hread)
      · rw [Sign.line_at, List.count_append]
        omega
  | cons first ts ih =>
    have hscans := scans line cs
    rw [h] at hscans
    generalize hresult : (Except.ok (first :: ts ++ t :: later) : Except Error (List Token))
      = result at hscans
    cases hscans with
    | finish => exact nomatch hresult
    | straySlash => exact nomatch hresult
    | openQuote => exact nomatch hresult
    | brokenOff =>
      have hlen := congrArg List.length (Except.ok.inj hresult)
      simp at hlen
    | @token line' gap form rest sign bare₁ hgap hform hends₁ hline₁ =>
      obtain ⟨bare', hfront, hbare⟩ := hahead.append_gap hgap hends
      obtain ⟨later', hread, hcons⟩ := exists_of_map_ok hresult.symm
      obtain ⟨rfl, rfl⟩ := List.cons.inj hcons
      have hnext := hfront.token hform fun hb => hform.not_bare (hbare hb)
      rw [List.append_assoc] at hnext
      have hfound := ih hread hnext hends₁ (by
        simp only [List.count_append]
        omega)
      simpa using hfound

/-! ## 4. Reading up to a token -/

/-- What is in front of a token is read, and the line moves by the newlines that are not hidden. -/
theorem Ahead.tokensFrom (h : Ahead signs n bare before) (hends : bare = true → Ends rest) :
    ∃ line ts, line + n = 1 + before.count '\n' ∧ ts.map Token.sign = signs ∧
      tokensFrom 1 .gap (before ++ rest) = (tokensFrom line .gap rest).map (ts ++ ·) := by
  induction h generalizing rest with
  | start =>
    refine ⟨1, [], rfl, rfl, ?_⟩
    show _ = (KeyValues.tokensFrom 1 .gap rest).map id
    rw [Except.map_id]
    rfl
  | @blank signs n bare cs c _ hc ih =>
    have hends : bare = true → Ends (c :: rest) := fun _ => ends_cons (by simp [isBareEnd, hc])
    obtain ⟨line, ts, hline, hsigns, hread⟩ := ih hends
    refine ⟨line + [c].count '\n', ts, ?_, hsigns, ?_⟩
    · rw [List.count_append]
      omega
    · rw [List.append_assoc, List.singleton_append, hread]
      exact congrArg _ ((Gap.blank hc .nil).tokensFrom)
  | @comment signs n cs body _ hbody ih =>
    have hgap : Gap ('/' :: '/' :: (body ++ ['\n'])) := .comment hbody .nil
    have hends : false = true → Ends ('/' :: '/' :: (body ++ ['\n']) ++ rest) :=
      fun hf => absurd hf Bool.false_ne_true
    obtain ⟨line, ts, hline, hsigns, hread⟩ := ih hends
    refine ⟨line + ('/' :: '/' :: (body ++ ['\n'])).count '\n', ts, ?_, hsigns, ?_⟩
    · rw [List.count_append]
      omega
    · rw [List.append_assoc, hread, hgap.tokensFrom]
  | @token signs sign n after bare cs form _ hform hafter ih =>
    obtain ⟨line, ts, hline, hsigns, hread⟩ := ih fun ha => hform.ends (hafter ha) rest
    obtain ⟨line', hline', hread'⟩ := hform.tokensFrom hends line
    refine ⟨line', ts ++ [sign.at line], ?_, by simp [hsigns], ?_⟩
    · rw [List.count_append]
      omega
    · rw [List.append_assoc, hread, hread']
      cases KeyValues.tokensFrom line' .gap rest <;> simp [Except.map]

theorem Reads.tokensFrom (h : Reads false signs cs) (line : Nat) :
    ∃ ts, tokensFrom line .gap cs = .ok ts ∧ ts.map Token.sign = signs := by
  rcases h with h | ⟨before, rfl, h⟩
  · simpa using h.tokensFrom line (.inl rfl)
  · obtain ⟨ts, hread, hsigns⟩ := h.tokensFrom line (.inl rfl)
    rw [List.append_nil] at hread
    exact ⟨ts, tokensFrom_mended hread, hsigns⟩

theorem Faces.ends (h : Faces after sign more cs) (hafter : after = true) : Ends cs := by
  cases h with
  | whole hform hbare _ _ => exact hform.ends (hbare hafter) _
  | brokenOff => exact ends_cons (by decide)

theorem Faces.tokensFrom (h : Faces after sign more cs) (line : Nat) :
    ∃ later, later.map Token.sign = more ∧
      tokensFrom line .gap cs = .ok (sign.at line :: later) := by
  cases h with
  | whole hform _ hends hrest =>
    obtain ⟨line', -, hread⟩ := hform.tokensFrom hends line
    obtain ⟨later, hlater, hsigns⟩ := hrest.tokensFrom line'
    refine ⟨later, hsigns, ?_⟩
    rw [hread, hlater]
    rfl
  | brokenOff hbody => exact ⟨[], rfl, tokensFrom_brokenOff hbody line⟩

end

/-! ## 5. The token at which the entries stop -/

section

variable {ts later : List Token} {t : Token} {e : Error} {problem : Problem}

/-- Tokens that say what is open are built into the frames. -/
theorem build_opened {frames : List Frame} {entries : KeyValues}
    (hts : ts.map Token.sign = opened frames ++ signs entries) (rest : List Token) :
    ∃ last, build [] [] 1 (ts ++ rest) = build frames entries.reverse last rest := by
  induction frames generalizing entries ts rest with
  | nil =>
    obtain ⟨last, hbuild⟩ := build_entries entries ts hts [] [] 1 rest
    exact ⟨last, by rw [hbuild, List.append_nil]⟩
  | cons frame frames ih =>
    rw [opened, List.append_assoc, List.append_assoc, ← List.append_assoc] at hts
    obtain ⟨outer, ts, rfl, houter, hts⟩ := List.map_eq_append_iff.mp hts
    obtain ⟨key, ts, rfl, hkey, hts⟩ := List.map_eq_cons_iff.mp hts
    obtain ⟨brace, inner, rfl, hbrace, hinner⟩ := List.map_eq_cons_iff.mp hts
    obtain ⟨last, hbuild⟩ := ih houter (key :: brace :: (inner ++ rest))
    obtain ⟨last', hinside⟩ :=
      build_entries entries inner hinner (frame :: frames) [] brace.line rest
    refine ⟨last', ?_⟩
    rw [List.append_assoc, List.cons_append, List.cons_append, hbuild, List.reverse_reverse,
      Token.eq_of_sign hkey, Token.eq_of_sign hbrace, Sign.at, Sign.at, build, String.ofList_toList,
      hinside, List.append_nil]

/-- **Tokens that are refused are refused for one of them.**  The induction is on the tokens that
are left; those in front of them have become the frames and the entries seen. -/
theorem fault_of_build {frames : List Frame} {seen : KeyValues} {last : Nat}
    (h : build frames seen last ts = .error e) (read : List Token)
    (hread : read.map Token.sign = opened frames ++ signs seen.reverse)
    (hlast : ∀ t ∈ read.getLast?, t.line = last) :
    ∃ front t later, read ++ ts = front ++ t :: later ∧ t.line = e.line ∧
      Fault (front.map Token.sign) t.sign (later.map Token.sign) e.problem := by
  revert read
  fun_induction build frames seen last ts with
  | case1 => cases h
  | case2 frame frames seen last =>
    intro read hread hlast
    cases h
    have hne : read ≠ [] := by
      rintro rfl
      simp [opened] at hread
    have hwhole := List.dropLast_append_getLast hne
    have hsigns : read.dropLast.map Token.sign ++ [(read.getLast hne).sign]
        = opened (frame :: frames) ++ signs seen.reverse := by
      rw [← List.map_singleton, ← List.map_append, hwhole, hread]
    refine ⟨read.dropLast, read.getLast hne, [], ?_, ?_, .missingClose hsigns⟩
    · rw [List.append_nil, hwhole]
    · exact hlast _ (List.getLast?_eq_some_getLast hne)
  | case3 seen last line rest =>
    intro read hread _
    cases h
    refine ⟨read, .closeBlock line, rest, rfl, rfl, ?_⟩
    rw [hread]
    exact .strayClose
  | case4 seen last line rest frame frames ih =>
    intro read hread _
    have hmore : (read ++ [Token.closeBlock line]).map Token.sign
        = opened frames ++ signs ((frame.key, .block seen.reverse) :: frame.before).reverse := by
      rw [List.map_append, hread, signs_reverse_cons]
      simp [opened, Token.sign, KeyValue.signs]
    simpa using ih h _ hmore (by simp [Token.line])
  | case5 frames seen last line rest =>
    intro read hread _
    cases h
    refine ⟨read, .openBlock line, rest, rfl, rfl, ?_⟩
    rw [hread]
    exact .keyIsOpen
  | case6 frames seen last word line key text next rest ih =>
    intro read hread _
    have hmore : (read ++ [Token.word word line, Token.word text next]).map Token.sign
        = opened frames ++ signs ((key, .text (String.ofList text)) :: seen).reverse := by
      rw [List.map_append, hread, signs_reverse_cons]
      simp [Token.sign, KeyValue.signs, key]
    simpa using ih h _ hmore (by simp [Token.line])
  | case7 frames seen last word line key next rest ih =>
    intro read hread _
    have hmore : (read ++ [Token.word word line, Token.openBlock next]).map Token.sign
        = opened (⟨seen, key⟩ :: frames) ++ signs ([] : KeyValues).reverse := by
      rw [List.map_append, hread]
      simp [opened, Token.sign, signs, KeyValue.signs.ofEntries, key]
    simpa using ih h _ hmore (by simp [Token.line])
  | case8 frames seen last word line key next rest =>
    intro read hread _
    cases h
    refine ⟨read ++ [.word word line], .closeBlock next, rest, by simp, rfl, ?_⟩
    rw [List.map_append, hread, List.append_assoc]
    exact .noValue
  | case9 frames seen last word line key =>
    intro read hread _
    cases h
    refine ⟨read, .word word line, [], rfl, rfl, ?_⟩
    rw [hread]
    exact .lastKey

theorem Fault.nothing_behind {before more : List Sign} {sign : Sign}
    (h : Fault before sign more .missingClose) : more = [] := by
  cases h
  rfl

/-- **Tokens with a fault are refused for it**, with the line of the token. -/
theorem Fault.build (h : Fault (ts.map Token.sign) t.sign (later.map Token.sign) problem) :
    build [] [] 1 (ts ++ t :: later) = .error ⟨t.line, problem⟩ := by
  generalize hbefore : ts.map Token.sign = before at h
  generalize hsign : t.sign = sign at h
  generalize hmore : later.map Token.sign = more at h
  cases h with
  | @strayClose entries =>
    have hopened : ts.map Token.sign = opened [] ++ signs entries := hbefore
    obtain ⟨last, hbuild⟩ := build_opened hopened (t :: later)
    rw [hbuild, Token.eq_of_sign hsign, Sign.at, KeyValues.build]
    rfl
  | keyIsOpen =>
    obtain ⟨last, hbuild⟩ := build_opened hbefore (t :: later)
    rw [hbuild, Token.eq_of_sign hsign, Sign.at, KeyValues.build]
    rfl
  | noValue =>
    rw [← List.append_assoc] at hbefore
    obtain ⟨outer, ts, rfl, houter, hts⟩ := List.map_eq_append_iff.mp hbefore
    obtain ⟨key, ts, rfl, hkey, hnil⟩ := List.map_eq_cons_iff.mp hts
    obtain rfl := List.map_eq_nil_iff.mp hnil
    obtain ⟨last, hbuild⟩ := build_opened houter (key :: t :: later)
    rw [List.append_assoc, List.singleton_append, hbuild, Token.eq_of_sign hsign,
      Token.eq_of_sign hkey, Sign.at, Sign.at, KeyValues.build]
    rfl
  | lastKey =>
    obtain rfl := List.map_eq_nil_iff.mp hmore
    obtain ⟨last, hbuild⟩ := build_opened hbefore [t]
    rw [hbuild, Token.eq_of_sign hsign, Sign.at, KeyValues.build]
    rfl
  | @missingClose frame frames entries _ _ hopened =>
    obtain rfl := List.map_eq_nil_iff.mp hmore
    have hall : (ts ++ [t]).map Token.sign = opened (frame :: frames) ++ signs entries := by
      rw [List.map_append, hbefore, List.map_singleton, hsign, hopened]
    obtain ⟨last, hbuild⟩ := build_opened hall []
    rw [List.append_nil, KeyValues.build] at hbuild
    -- the line is that of the last token, as that is the only one to blame
    obtain ⟨front, t', later, hts, hline, hfault⟩ := fault_of_build hbuild [] rfl (by simp)
    obtain rfl := List.map_eq_nil_iff.mp hfault.nothing_behind
    rw [List.nil_append] at hts
    obtain ⟨-, hlast⟩ := List.append_inj' hts rfl
    obtain rfl : t = t' := List.head_eq_of_cons_eq hlast
    rw [hbuild, hline]

end

/-! ## 6. The line of an error -/

theorem parse_eq (text : String) : parse text = (tokens text.toList).bind (build [] [] 1) := rfl

/-- **A text that is refused** has a token that is to be blamed. -/
theorem blames_of_parse {text : String} {e : Error} (h : parse text = .error e) :
    ∃ before n, Blames text.toList e.problem before n ∧ e.line + n = 1 + before.count '\n' := by
  rw [parse_eq] at h
  cases htokens : tokens text.toList with
  | error e' =>
    rw [htokens] at h
    obtain rfl : e' = e := Except.error.inj h
    exact blames_of_tokensFrom htokens .start nofun rfl
  | ok ts =>
    rw [htokens] at h
    have hbuild : build [] [] 1 ts = .error e := h
    obtain ⟨front, t, later, hts, hline, hfault⟩ := fault_of_build hbuild [] rfl (by simp)
    rw [List.nil_append] at hts
    subst hts
    obtain ⟨before, n, after, rest, htext, hahead, hfaces, hcount⟩ :=
      faces_of_tokensFrom htokens .start nofun rfl
    rw [List.nil_append] at htext
    refine ⟨before, n, ?_, by omega⟩
    rw [htext]
    exact .token hahead hfaces hfault

/-- **A text with a token that is to be blamed** is refused for it. -/
theorem Blames.parse {text : String} {problem : Problem} {before : List Char} {n line : Nat}
    (h : Blames text.toList problem before n) (hline : line + n = 1 + before.count '\n') :
    parse text = .error ⟨line, problem⟩ := by
  rw [parse_eq, tokens]
  generalize text.toList = cs at h
  cases h with
  | @straySlash _ _ _ rest hahead hslash =>
    have hends : false = true → Ends ('/' :: rest) := nofun
    obtain ⟨line', ts, hcount, -, hread⟩ := hahead.tokensFrom hends
    obtain rfl : line' = line := by omega
    rw [hread, tokensFrom_slash hslash]
    rfl
  | @openQuote _ _ after _ _ body hahead hbody =>
    have hends : after = true → Ends ('"' :: body) := fun _ => ends_cons (by decide)
    obtain ⟨line', ts, hcount, -, hread⟩ := hahead.tokensFrom hends
    obtain rfl : line' = line := by omega
    rw [hread, tokensFrom_open hbody]
    rfl
  | @token signs more sign _ _ _ _ cs hahead hfaces hfault =>
    obtain ⟨line', ts, hcount, rfl, hread⟩ := hahead.tokensFrom hfaces.ends
    obtain rfl : line' = line := by omega
    obtain ⟨later, rfl, hlater⟩ := hfaces.tokensFrom line'
    have hblamed :
        Fault (ts.map Token.sign) (sign.at line').sign (later.map Token.sign) problem := by
      rwa [Sign.sign_at]
    rw [hread, hlater]
    show build [] [] 1 (ts ++ sign.at line' :: later) = _
    rw [hblamed.build, Sign.line_at]

/-- **A text is refused for the token that it is to be blamed for**, and for no other; the line is
the token's, less the newlines in front of it that are hidden. -/
theorem parse_eq_error_iff (text : String) (e : Error) :
    parse text = .error e ↔ ∃ before n, Blames text.toList e.problem before n ∧
      e.line + n = 1 + before.count '\n' := by
  constructor
  · exact blames_of_parse
  · rintro ⟨before, n, hblames, hline⟩
    exact hblames.parse hline

/-- A text of two lines, with a brace too many at its end. -/
def escapedNewline : String := "\"\\\n\" b \x7d"

/-- Its error is said to be on the first line.  The brace is on the second. -/
theorem escaped_newline_not_counted :
    parse escapedNewline = .error ⟨1, .strayClose⟩ ∧
      ∃ before n, Blames escapedNewline.toList .strayClose before n ∧ before.count '\n' = 1 := by
  refine ⟨by rfl, ['"', '\\', '\n', '"', ' ', 'b', ' '], 1, ?_, by decide⟩
  have henclosed : Enclosed ['\n'] ['\\', '\n'] := .escaped (c := '\n') .nil
  have hword : Form (.word ['\n']) false ['"', '\\', '\n', '"'] := .quoted henclosed
  have hbare : IsBare ['b'] := ⟨by decide, by decide, List.forall_mem_singleton.mpr rfl⟩
  have hblank : Ahead [.word ['\n']] 1 false ['"', '\\', '\n', '"', ' '] :=
    (Ahead.start.token hword nofun).blank (by decide)
  have hahead : Ahead (signs [("\n", .text "b")]) 1 false ['"', '\\', '\n', '"', ' ', 'b', ' '] :=
    (hblank.token (.bare hbare) nofun).blank (by decide)
  have hbrace : Faces false .closes [] ['\x7d'] := .whole .closes nofun nofun (.nil false)
  exact .token hahead hbrace .strayClose

end ServerWarden.KeyValues
