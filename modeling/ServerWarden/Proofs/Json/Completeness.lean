/-
# The reader takes all that is JSON

What the grammar derives is read, in front of any text that may follow a value.  Texts are read as
what they spell (`Spelled.readText?`), and a body that spells nothing is still read over
(`Body.namedAs`).  For values the statement is `ReadsAs cs v`: with room for as many levels as `cs`
has characters, the reader takes `cs` for `v` and leaves what follows.  Room for that many levels
is what the reader starts with, and each bracket uses up a level and a character.

`Derives.isRead` is the induction on the grammar, and `ReadsAs.read?` what comes of it for a whole
text.
-/
import Mathlib.Tactic.IntervalCases
import ServerWarden.Proofs.Json.Grammar

namespace ServerWarden.Json

/-! ## 1. Texts between quotes -/

section

variable {v u : Nat} {c e : Char} {cs word body rest : List Char} {seen : Option (List Char)}

theorem Digit.hex? (h : Digit v c) : hex? c = some v := by
  have hv : v < 16 := by
    rcases h with h | h <;> exact (List.getElem?_eq_some_iff.mp h).1
  rcases h with h | h <;> interval_cases v <;> obtain rfl := Option.some.inj h <;> decide

theorem Code.unit? (h : Code u cs) (rest : List Char) : unit? (cs ++ rest) = some (u, rest) := by
  cases h with
  | mk ha hb hc hd =>
    simp [Json.unit?, ha.hex?, hb.hex?, hc.hex?, hd.hex?]

theorem Letter.ne_u (h : Letter e c) : e ≠ 'u' := by
  cases h <;> decide

theorem isHighHalf_iff : isHighHalf u = true ↔ 0xD800 ≤ u ∧ u < 0xDC00 := by
  simp [isHighHalf]

theorem isLowHalf_iff : isLowHalf u = true ↔ 0xDC00 ≤ u ∧ u < 0xE000 := by
  simp [isLowHalf]

/-- A character's own code is no half of a pair. -/
theorem not_half (c : Char) : isHighHalf c.toNat = false ∧ isLowHalf c.toNat = false := by
  have hvalid : c.toNat < 0xD800 ∨ 0xDFFF < c.toNat ∧ c.toNat < 0x110000 := c.valid
  simp only [isHighHalf, isLowHalf, Bool.and_eq_false_iff, decide_eq_false_iff_not]
  omega

theorem codePoint_of_char (c : Char) (rest : List Char) :
    codePoint c.toNat rest = (some c, rest) := by
  obtain ⟨hhigh, hlow⟩ := not_half c
  unfold codePoint
  rw [hhigh, hlow, if_neg (by decide), if_neg (by decide), Char.ofNat_toNat]

theorem codePoint_of_pair {high low : Nat} (hlow : Code (0xDC00 + low) cs) (hh : high < 0x400)
    (hl : low < 0x400) (hc : c.toNat = 0x10000 + high * 0x400 + low) (rest : List Char) :
    codePoint (0xD800 + high) ('\\' :: 'u' :: (cs ++ rest)) = (some c, rest) := by
  have hhigh : isHighHalf (0xD800 + high) = true := isHighHalf_iff.mpr ⟨by omega, by omega⟩
  have hhalf : isLowHalf (0xDC00 + low) = true := isLowHalf_iff.mpr ⟨by omega, by omega⟩
  have hsum : 0x10000 + (0xD800 + high - 0xD800) * 0x400 + (0xDC00 + low - 0xDC00) = c.toNat := by
    omega
  simp only [codePoint, hhigh, if_true, hlow.unit?, hhalf, hsum, Char.ofNat_toNat]

/-! One step of the reader for each thing that a body is made of. -/

theorem text?_quote (fuel : Nat) : text? (fuel + 1) seen ('"' :: rest)
    = some (seen.map fun s => String.ofList s.reverse, rest) := by
  simp [text?]

theorem text?_plain (hc : IsPlain c) (fuel : Nat) :
    text? (fuel + 1) seen (c :: rest) = text? fuel (seen.map (c :: ·)) rest := by
  have hcontrol : ¬ c.toNat < 0x20 := Nat.not_lt.mpr hc.not_control
  simp [text?, hc.not_quote, hc.not_backslash, hcontrol]

theorem text?_letter (h : Letter e c) (fuel : Nat) :
    text? (fuel + 1) seen ('\\' :: e :: rest) = text? fuel (seen.map (c :: ·)) rest := by
  cases h <;> rfl

theorem text?_code (h : Code u cs) (fuel : Nat) :
    text? (fuel + 1) seen ('\\' :: 'u' :: (cs ++ rest)) = text? fuel
      (seen.bind fun s => (codePoint u rest).1.map (· :: s)) (codePoint u rest).2 := by
  rw [text?, if_neg (by decide), if_pos rfl]
  simp only [h.unit?]

/-- **A character is read from each of its forms**, in one step. -/
theorem CharForm.text? (h : CharForm c cs) (fuel : Nat) (seen rest : List Char) :
    text? (fuel + 1) (some seen) (cs ++ rest) = text? fuel (some (c :: seen)) rest := by
  cases h with
  | plain hc => exact text?_plain hc fuel
  | letter he => exact text?_letter he fuel
  | code hcode =>
    rw [List.cons_append, List.cons_append, text?_code hcode, codePoint_of_char]
    rfl
  | pair hhigh hlow hh hl hc =>
    rw [List.cons_append, List.cons_append, List.append_assoc, List.cons_append, List.cons_append,
      text?_code hhigh, codePoint_of_pair hlow hh hl hc]
    rfl

theorem CharForm.ne_nil (h : CharForm c cs) : 0 < cs.length := by
  cases h <;> simp

theorem Spelled.length_le (h : Spelled word body) : word.length ≤ body.length := by
  induction h with
  | nil => exact Nat.le_refl _
  | cons hc _ ih =>
    have := hc.ne_nil
    rw [List.length_cons, List.length_append]
    omega

theorem Spelled.text? (h : Spelled word body) {fuel : Nat} (hfuel : word.length < fuel)
    (seen rest : List Char) : text? fuel (some seen) (body ++ '"' :: rest)
      = some (some (String.ofList (seen.reverse ++ word)), rest) := by
  induction h generalizing fuel seen with
  | nil =>
    obtain ⟨fuel, rfl⟩ := Nat.exists_eq_add_one.mpr hfuel
    rw [List.nil_append, text?_quote, List.append_nil]
    rfl
  | cons hc _ ih =>
    obtain ⟨fuel, rfl⟩ := Nat.exists_eq_add_one.mpr (Nat.zero_lt_of_lt hfuel)
    rw [List.append_assoc, hc.text?, ih (by simpa using hfuel)]
    simp

/-- **A text is read as what it spells.** -/
theorem Spelled.readText? (h : Spelled word body) (rest : List Char) :
    readText? (body ++ '"' :: rest) = some (some (String.ofList word), rest) := by
  have hlength := h.length_le
  have hfuel : word.length < (body ++ '"' :: rest).length + 1 := by
    rw [List.length_append]
    omega
  rw [Json.readText?, h.text? hfuel]
  rfl

/-- The character of a code that is not followed by another. -/
def codeAlone (u : Nat) : Option Char :=
  if isHighHalf u ∨ isLowHalf u then none else some (Char.ofNat u)

/-- A code that is not followed by another is read by itself. -/
theorem codePoint_alone (h : ∀ tail, rest ≠ '\\' :: 'u' :: tail) (u : Nat) :
    codePoint u rest = (codeAlone u, rest) := by
  unfold codePoint codeAlone
  by_cases hhigh : isHighHalf u = true
  · rw [if_pos hhigh, if_pos (.inl hhigh)]
    split
    · exact absurd rfl (h _)
    · rfl
  · simp only [hhigh, Bool.false_eq_true, if_false, false_or]
    split <;> rfl

/-- Behind a code the reader takes at most one more code, and so a shorter body is left. -/
theorem codePoint_body (hbody : Body body) (u : Nat) : ∃ p body', Body body' ∧
    body'.length ≤ body.length ∧
    ∀ rest, codePoint u (body ++ '"' :: rest) = (p, body' ++ '"' :: rest) := by
  have alone (h : ∀ rest tail, body ++ '"' :: rest ≠ '\\' :: 'u' :: tail) : ∃ p body', Body body' ∧
      body'.length ≤ body.length ∧
      ∀ rest, codePoint u (body ++ '"' :: rest) = (p, body' ++ '"' :: rest) :=
    ⟨_, body, hbody, Nat.le_refl _, fun rest => codePoint_alone (h rest) u⟩
  cases hbody with
  | nil => exact alone (by simp)
  | plain hc => exact alone (by simp [hc.not_backslash])
  | letter he => exact alone (by simp [he.ne_u])
  | @code u' cs body hcode hbody =>
    by_cases hpair : isHighHalf u = true ∧ isLowHalf u' = true
    · refine ⟨some (Char.ofNat (0x10000 + (u - 0xD800) * 0x400 + (u' - 0xDC00))), body, hbody,
        by simp only [List.length_cons, List.length_append]; omega, fun rest => ?_⟩
      simp [codePoint, hcode.unit?, hpair]
    · refine ⟨codeAlone u, _, .code hcode hbody, Nat.le_refl _, fun rest => ?_⟩
      by_cases hhigh : isHighHalf u = true
      · have hlow : ¬ isLowHalf u' = true := fun hlow => hpair ⟨hhigh, hlow⟩
        simp [codePoint, codeAlone, hcode.unit?, hhigh, hlow]
      · simp only [codePoint, codeAlone, hhigh, Bool.false_eq_true, if_false, false_or]
        split <;> rfl

/-- A body is read up to its closing quote, to the same text whatever follows. -/
theorem Body.text? (h : Body body) (seen : Option (List Char)) : ∃ t, ∀ {fuel : Nat},
    body.length < fuel → ∀ rest, text? fuel seen (body ++ '"' :: rest) = some (t, rest) := by
  -- by length and not by the body's own cases, since a code may be taken together with the next
  induction hn : body.length using Nat.strong_induction_on generalizing body seen with
  | _ n ih =>
    subst hn
    cases h with
    | nil =>
      refine ⟨seen.map fun s => String.ofList s.reverse, fun {fuel} hfuel rest => ?_⟩
      obtain ⟨fuel, rfl⟩ := Nat.exists_eq_add_one.mpr (Nat.zero_lt_of_lt hfuel)
      exact text?_quote fuel
    | plain hc hbody =>
      obtain ⟨t, ht⟩ := ih _ (Nat.lt_succ_self _) hbody _ rfl
      refine ⟨t, fun {fuel} hfuel rest => ?_⟩
      obtain ⟨fuel, rfl⟩ := Nat.exists_eq_add_one.mpr (Nat.zero_lt_of_lt hfuel)
      rw [List.cons_append, text?_plain hc]
      exact ht (Nat.lt_of_succ_lt_succ hfuel) rest
    | letter he hbody =>
      obtain ⟨t, ht⟩ := ih _ (Nat.lt_succ_of_lt (Nat.lt_succ_self _)) hbody _ rfl
      refine ⟨t, fun {fuel} hfuel rest => ?_⟩
      obtain ⟨fuel, rfl⟩ := Nat.exists_eq_add_one.mpr (Nat.zero_lt_of_lt hfuel)
      rw [List.cons_append, List.cons_append, text?_letter he]
      exact ht (Nat.lt_of_succ_lt (Nat.lt_of_succ_lt_succ hfuel)) rest
    | @code u cs body hcode hbody =>
      obtain ⟨p, body', hbody', hlength, hleft⟩ := codePoint_body hbody u
      have hlt : body'.length < ('\\' :: 'u' :: (cs ++ body)).length := by
        simp only [List.length_cons, List.length_append]
        omega
      obtain ⟨t, ht⟩ := ih _ hlt hbody' (seen.bind fun s => p.map (· :: s)) rfl
      refine ⟨t, fun {fuel} hfuel rest => ?_⟩
      obtain ⟨fuel, rfl⟩ := Nat.exists_eq_add_one.mpr (Nat.zero_lt_of_lt hfuel)
      rw [List.cons_append, List.cons_append, List.append_assoc, text?_code hcode, hleft]
      exact ht (by omega) rest

/-- What stands between quotes is read as `name`. -/
def NamedAs (body : List Char) (name : Option String) : Prop :=
  ∀ rest, readText? (body ++ '"' :: rest) = some (name, rest)

theorem Spelled.namedAs (h : Spelled word body) : NamedAs body (some (String.ofList word)) :=
  h.readText?

/-- **A body is read up to its closing quote**, whether it spells a text or not. -/
theorem Body.namedAs (h : Body body) : ∃ name, NamedAs body name := by
  obtain ⟨t, ht⟩ := h.text? (some [])
  refine ⟨t, fun rest => ht ?_ rest⟩
  rw [List.length_append]
  omega

end

/-! ## 2. Numbers -/

/-- What may follow a value: a blank, or the mark that ends a member or an item. -/
def Follows (rest : List Char) : Prop :=
  ∀ c ∈ rest.head?, isBlank c = true ∨ c ∈ [',', ']', '}']

def NoDigit (rest : List Char) : Prop := ∀ c ∈ rest.head?, c.isDigit = false

/-- The value of a decimal digit. -/
def digitValue (c : Char) : Nat := c.toNat - '0'.toNat

section

variable {sign whole fraction exponent cs rest : List Char}

theorem digits_append (h : ∀ c ∈ cs, c.isDigit = true) (hrest : NoDigit rest) :
    digits (cs ++ rest) = (cs.map digitValue, rest) := by
  have hnone : rest.takeWhile Char.isDigit = [] ∧ rest.dropWhile Char.isDigit = rest := by
    cases rest with
    | nil => exact ⟨rfl, rfl⟩
    | cons c rest =>
      have hc : ¬ c.isDigit = true := Bool.eq_false_iff.mp (hrest c rfl)
      exact ⟨List.takeWhile_cons_of_neg hc, List.dropWhile_cons_of_neg hc⟩
  rw [digits, List.takeWhile_append_of_pos h, List.dropWhile_append_of_pos h, hnone.1, hnone.2,
    List.append_nil]
  rfl

theorem Digits.digits (h : Digits cs) : ∃ d ds, ∀ {rest : List Char}, NoDigit rest →
    Json.digits (cs ++ rest) = (d :: ds, rest) := by
  obtain ⟨c, cs, rfl⟩ := List.exists_cons_of_ne_nil h.ne_nil
  exact ⟨_, _, digits_append h.digit⟩

/-- What follows a value starts no digit, no fraction and no exponent. -/
theorem Follows.breaks_off (h : Follows rest) :
    NoDigit rest ∧ ∀ c ∈ rest.head?, c ≠ '.' ∧ c ≠ 'e' ∧ c ≠ 'E' := by
  have hhead : ∀ c, isBlank c = true ∨ c ∈ [',', ']', '}'] →
      c.isDigit = false ∧ c ≠ '.' ∧ c ≠ 'e' ∧ c ≠ 'E' := by
    intro c hc
    simp only [isBlank, Bool.or_eq_true, beq_iff_eq, List.mem_cons, List.not_mem_nil,
      or_false] at hc
    rcases hc with (((rfl | rfl) | rfl) | rfl) | rfl | rfl | rfl <;> decide
  exact ⟨fun c hc => (hhead c (h c hc)).1, fun c hc => (hhead c (h c hc)).2⟩

theorem exponentValue?_append (hsign : sign ∈ [[], ['+'], ['-']]) (hdigits : Digits cs) :
    ∃ e, ∀ {rest : List Char}, NoDigit rest →
      exponentValue? (sign ++ (cs ++ rest)) = some (e, rest) := by
  obtain ⟨d, ds, hread⟩ := hdigits.digits
  simp only [List.mem_cons, List.not_mem_nil, or_false] at hsign
  rcases hsign with rfl | rfl | rfl
  · obtain ⟨c, cs, rfl⟩ := List.exists_cons_of_ne_nil hdigits.ne_nil
    have hc : c ≠ '-' ∧ c ≠ '+' := by
      have := hdigits.digit c List.mem_cons_self
      constructor <;> rintro rfl <;> exact absurd this (by decide)
    simp only [List.cons_append] at hread
    exact ⟨_, fun hrest => by simp [exponentValue?, hc, hread hrest]; rfl⟩
  · exact ⟨_, fun hrest => by simp [exponentValue?, hread hrest]; rfl⟩
  · exact ⟨_, fun hrest => by simp [exponentValue?, hread hrest]; rfl⟩

theorem Exponent.exponent? (h : Exponent exponent) : ∃ e, ∀ {rest : List Char}, Follows rest →
    exponent? (exponent ++ rest) = some (e, rest) := by
  cases h with
  | absent =>
    refine ⟨none, fun {rest} hrest => ?_⟩
    cases rest with
    | nil => rfl
    | cons c rest =>
      obtain ⟨-, he, hE⟩ := hrest.breaks_off.2 c rfl
      simp [Json.exponent?, he, hE]
  | @present mark sign cs hmark hsign hdigits =>
    obtain ⟨e, hvalue⟩ := exponentValue?_append hsign hdigits
    simp only [List.mem_cons, List.not_mem_nil, or_false] at hmark
    refine ⟨some e, fun {rest} hrest => ?_⟩
    rw [List.cons_append, List.append_assoc]
    rcases hmark with rfl | rfl <;> simp [Json.exponent?, hvalue hrest.breaks_off.1]

/-- An exponent, or what follows a value, starts no digit and no fraction. -/
theorem Exponent.breaks_off (h : Exponent exponent) (hrest : Follows rest) :
    NoDigit (exponent ++ rest) ∧ ∀ c ∈ (exponent ++ rest).head?, c ≠ '.' := by
  cases h with
  | absent => exact ⟨hrest.breaks_off.1, fun c hc => (hrest.breaks_off.2 c hc).1⟩
  | @present mark sign cs hmark _ _ =>
    have hhead : mark.isDigit = false ∧ mark ≠ '.' := by
      simp only [List.mem_cons, List.not_mem_nil, or_false] at hmark
      rcases hmark with rfl | rfl <;> decide
    refine ⟨fun c hc => ?_, fun c hc => ?_⟩ <;> obtain rfl : mark = c := Option.some.inj hc
    · exact hhead.1
    · exact hhead.2

theorem Fraction.fraction? (h : Fraction fraction) : ∃ ds, ∀ {rest : List Char}, NoDigit rest →
    (∀ c ∈ rest.head?, c ≠ '.') → fraction? (fraction ++ rest) = some (ds, rest) := by
  cases h with
  | absent =>
    refine ⟨[], fun {rest} _ hpoint => ?_⟩
    cases rest with
    | nil => rfl
    | cons c rest => simp [Json.fraction?, hpoint c rfl]
  | present hdigits =>
    obtain ⟨d, ds, hread⟩ := hdigits.digits
    exact ⟨d :: ds, fun hrest _ => by simp [Json.fraction?, hread hrest]⟩

theorem Fraction.noDigit (h : Fraction fraction) (hrest : NoDigit rest) :
    NoDigit (fraction ++ rest) := by
  cases h with
  | absent => exact hrest
  | present =>
    intro c hc
    obtain rfl : '.' = c := Option.some.inj hc
    decide

theorem eq_zero_of_digitValue {c : Char} (hc : c.isDigit = true) (h : digitValue c = 0) :
    c = '0' := by
  simp only [Char.isDigit, Bool.and_eq_true, decide_eq_true_eq, ge_iff_le,
    UInt32.le_iff_toNat_le] at hc
  have hval : c.val.toNat = 48 := Nat.le_antisymm (Nat.le_of_sub_eq_zero h) hc.1
  exact Char.ext (UInt32.toNat.inj hval)

/-- The digits before the point, which the reader refuses if a zero stands in front of others. -/
theorem Whole.digits (h : Whole whole) (hrest : NoDigit rest) :
    Json.digits (whole ++ rest) = (whole.map digitValue, rest) ∧ whole.map digitValue ≠ [] ∧
      ∀ d ds, whole.map digitValue ≠ 0 :: d :: ds := by
  refine ⟨digits_append h.digit hrest, by simpa using h.ne_nil, fun d ds hzero => ?_⟩
  obtain ⟨c, cs, rfl⟩ := List.exists_cons_of_ne_nil h.ne_nil
  obtain ⟨hc, hcs⟩ := List.cons.inj hzero
  obtain rfl := eq_zero_of_digitValue (h.digit c List.mem_cons_self) hc
  rcases h.lead with hone | hlead
  · obtain rfl := (List.cons.inj hone).2
    exact absurd hcs (by simp)
  · exact hlead rfl

theorem Whole.head_ne (h : Whole whole) (rest : List Char) :
    (whole ++ rest).head? ≠ some '-' := by
  obtain ⟨c, cs, rfl⟩ := List.exists_cons_of_ne_nil h.ne_nil
  intro hc
  obtain rfl := Option.some.inj hc
  exact absurd (h.digit _ List.mem_cons_self) (by decide)

/-- **A number is read by its parts.** -/
theorem number?_append (hsign : sign ∈ [[], ['-']]) (hwhole : Whole whole) (hrest : NoDigit rest) :
    number? (sign ++ (whole ++ rest)) = (fraction? rest).bind fun r =>
      (exponent? r.2).bind fun s =>
        some (⟨decide (sign = ['-']), whole.map digitValue, r.1, s.1⟩, s.2) := by
  obtain ⟨hread, hne, hzero⟩ := hwhole.digits hrest
  unfold number?
  split
  next negative cs h =>
    have hsplit : negative = decide (sign = ['-']) ∧ cs = whole ++ rest := by
      simp only [List.mem_cons, List.not_mem_nil, or_false] at hsign
      rcases hsign with rfl | rfl
      · split at h
        · next hminus => exact absurd (congrArg List.head? hminus) (hwhole.head_ne rest)
        · exact (Prod.mk.inj h).imp Eq.symm Eq.symm
      · exact (Prod.mk.inj h).imp Eq.symm Eq.symm
    obtain ⟨rfl, rfl⟩ := hsplit
    rw [hread]
    -- neither of the two shapes of digits that are refused
    split
    · next h => exact absurd (Prod.mk.inj h).1 hne
    · next h => exact absurd (Prod.mk.inj h).1 (hzero _ _)
    · rfl

theorem Number.number? (h : Number cs) : ∃ n, ∀ {rest : List Char}, Follows rest →
    number? (cs ++ rest) = some (n, rest) := by
  cases h with
  | @mk sign whole fraction exponent hsign hwhole hfraction hexponent =>
    obtain ⟨ds, hds⟩ := hfraction.fraction?
    obtain ⟨e, he⟩ := hexponent.exponent?
    refine ⟨⟨decide (sign = ['-']), whole.map digitValue, ds, e⟩, fun {rest} hrest => ?_⟩
    obtain ⟨hdigit, hpoint⟩ := hexponent.breaks_off hrest
    simp only [List.append_assoc]
    rw [number?_append hsign hwhole (hfraction.noDigit hdigit), hds hdigit hpoint,
      Option.bind_some, he hrest]
    rfl

theorem Number.starts (h : Number cs) : ∃ c cs', cs = c :: cs' ∧ (c = '-' ∨ c.isDigit = true) := by
  cases h with
  | @mk sign whole fraction exponent hsign hwhole _ _ =>
    simp only [List.mem_cons, List.not_mem_nil, or_false] at hsign
    rcases hsign with rfl | rfl
    · obtain ⟨c, cs, rfl⟩ := List.exists_cons_of_ne_nil hwhole.ne_nil
      exact ⟨c, _, rfl, .inr (hwhole.digit c List.mem_cons_self)⟩
    · exact ⟨'-', _, rfl, .inl rfl⟩

end

/-! ## 3. Values -/

/-- **`ReadsAs cs v`: the reader takes `cs` for `v`** and leaves what follows.  It has come over the
blanks in front of `cs`, and sees from the first character that no array ends here. -/
structure ReadsAs (cs : List Char) (v : Json) : Prop where
  starts : ∃ c cs', cs = c :: cs' ∧ isBlank c = false ∧ c ≠ ']'
  value : ∀ {depth : Nat} {rest : List Char}, cs.length ≤ depth → Follows rest →
    value? depth (cs ++ rest) = some (v, rest)

structure ItemsAs (cs : List Char) (vs : List Json) : Prop where
  starts : ∀ rest, ∃ c cs', skipBlanks (cs ++ rest) = c :: cs' ∧ c ≠ ']'
  items : ∀ {depth fuel : Nat} {seen : List Json} {rest : List Char}, cs.length ≤ depth →
    cs.length < fuel → items? (value? depth) fuel seen (cs ++ ']' :: rest)
      = some (.array (seen.reverse ++ vs), rest)

structure MembersAs (cs : List Char) (ms : List (Option String × Json)) : Prop where
  starts : ∀ rest, ∃ c cs', skipBlanks (cs ++ rest) = c :: cs' ∧ c ≠ '}'
  members : ∀ {depth fuel : Nat} {seen : List (Option String × Json)} {rest : List Char},
    cs.length ≤ depth → cs.length < fuel →
      members? (value? depth) fuel seen (cs ++ '}' :: rest)
        = some (.object (seen.reverse ++ ms), rest)

section

variable {c mark : Char} {cs before behind body value rest : List Char} {v : Json} {vs : List Json}
  {name : Option String} {ms : List (Option String × Json)} {depth fuel : Nat}

/-! The marks between and behind values, and the blanks around them. -/

theorem skipBlanks_cons (hc : isBlank c = false) (cs : List Char) :
    skipBlanks (c :: cs) = c :: cs :=
  List.dropWhile_cons_of_neg (by simp [hc])

theorem Blanks.skipBlanks (h : Blanks before) (cs : List Char) :
    skipBlanks (before ++ cs) = Json.skipBlanks cs :=
  List.dropWhile_append_of_pos h

theorem Blanks.skipBlanks_cons (h : Blanks before) (hc : isBlank c = false) (cs : List Char) :
    Json.skipBlanks (before ++ c :: cs) = c :: cs := by
  rw [h.skipBlanks, Json.skipBlanks_cons hc]

theorem comma_mark : ',' ∈ [',', ']', '}'] := List.mem_cons_self

theorem bracket_mark : ']' ∈ [',', ']', '}'] := by decide

theorem brace_mark : '}' ∈ [',', ']', '}'] := by decide

theorem mark_not_blank (h : mark ∈ [',', ']', '}']) : isBlank mark = false := by
  simp only [List.mem_cons, List.not_mem_nil, or_false] at h
  rcases h with rfl | rfl | rfl <;> rfl

theorem Blanks.follows_end (h : Blanks behind) : Follows behind :=
  fun c hc => .inl (h c (List.mem_of_mem_head? hc))

theorem Blanks.follows (h : Blanks behind) (hmark : mark ∈ [',', ']', '}'])
    (rest : List Char) : Follows (behind ++ mark :: rest) := by
  cases behind with
  | nil =>
    intro c hc
    obtain rfl : mark = c := Option.some.inj hc
    exact .inr hmark
  | cons b behind =>
    intro c hc
    obtain rfl : b = c := Option.some.inj hc
    exact .inl (h b List.mem_cons_self)

/-- A value with blanks around it is read up to the mark behind it. -/
theorem ReadsAs.padded (h : ReadsAs value v) (hcs : Padded value cs)
    (hmark : mark ∈ [',', ']', '}']) (hdepth : cs.length ≤ depth) (rest : List Char) :
    ∃ left, value? depth (skipBlanks (cs ++ mark :: rest)) = some (v, left) ∧
      skipBlanks left = mark :: rest := by
  cases hcs with
  | @mk before behind hbefore hbehind =>
    obtain ⟨c, cs', rfl, hc, -⟩ := h.starts
    refine ⟨behind ++ mark :: rest, ?_, hbehind.skipBlanks_cons (mark_not_blank hmark) rest⟩
    simp only [List.length_append] at hdepth
    rw [List.append_assoc, List.append_assoc, List.cons_append, hbefore.skipBlanks_cons hc]
    exact h.value (by omega) (hbehind.follows hmark rest)

/-! One step for each item and each member. -/

theorem ReadsAs.starts_padded (h : ReadsAs value v) (hcs : Padded value cs) (rest : List Char) :
    ∃ c cs', skipBlanks (cs ++ rest) = c :: cs' ∧ c ≠ ']' := by
  cases hcs with
  | mk hbefore _ =>
    obtain ⟨c, cs', rfl, hc, hne⟩ := h.starts
    rw [List.append_assoc, List.append_assoc, List.cons_append, hbefore.skipBlanks_cons hc]
    exact ⟨c, _, rfl, hne⟩

theorem ReadsAs.items (h : ReadsAs value v) (hcs : Padded value cs) : ItemsAs cs [v] where
  starts := h.starts_padded hcs
  items := by
    intro depth fuel seen rest hdepth hfuel
    obtain ⟨fuel, rfl⟩ := Nat.exists_eq_add_one.mpr (Nat.zero_lt_of_lt hfuel)
    obtain ⟨left, hread, hleft⟩ := h.padded hcs bracket_mark hdepth rest
    simp [items?, hread, hleft]

theorem ItemsAs.cons (hrest : ItemsAs rest vs) (h : ReadsAs value v) (hcs : Padded value cs) :
    ItemsAs (cs ++ ',' :: rest) (v :: vs) where
  starts := by
    intro tail
    rw [List.append_assoc]
    exact h.starts_padded hcs _
  items := by
    intro depth fuel seen tail hdepth hfuel
    rw [List.length_append, List.length_cons] at hdepth hfuel
    obtain ⟨fuel, rfl⟩ := Nat.exists_eq_add_one.mpr (Nat.zero_lt_of_lt hfuel)
    have hdepth' : rest.length ≤ depth := by omega
    have hfuel' : rest.length < fuel := by omega
    have hcsdepth : cs.length ≤ depth := by omega
    obtain ⟨left, hread, hleft⟩ := h.padded hcs comma_mark hcsdepth (rest ++ ']' :: tail)
    rw [List.append_assoc, List.cons_append, items?, hread]
    simp only [Option.bind_eq_bind, Option.bind_some, hleft]
    rw [hrest.items hdepth' hfuel', List.reverse_cons, List.append_assoc]
    rfl

/-- The reader comes from a member's name to its value. -/
theorem Member.members? (h : Member body value cs) (hname : NamedAs body name)
    (hvalue : ReadsAs value v) (hmark : mark ∈ [',', ']', '}']) (hdepth : cs.length ≤ depth)
    (fuel : Nat) (seen : List (Option String × Json)) (rest : List Char) :
    members? (value? depth) (fuel + 1) seen (cs ++ mark :: rest) = match mark :: rest with
      | ',' :: rest => members? (value? depth) fuel ((name, v) :: seen) rest
      | '}' :: rest => some (.object ((name, v) :: seen).reverse, rest)
      | _ => none := by
  cases h with
  | @mk n cs hn hcs =>
    cases hn with
    | @mk before behind hbefore hbehind =>
      simp only [List.length_append, List.length_cons] at hdepth
      have hdepth' : cs.length ≤ depth := by omega
      obtain ⟨left, hread, hleft⟩ := hvalue.padded hcs hmark hdepth' rest
      simp only [inQuotes, List.append_assoc, List.cons_append, List.nil_append]
      rw [Json.members?, hbefore.skipBlanks_cons rfl]
      simp only [hname _, Option.bind_eq_bind, Option.bind_some]
      rw [hbehind.skipBlanks_cons rfl]
      simp only [List.mem_cons, List.not_mem_nil, or_false] at hmark
      rcases hmark with rfl | rfl | rfl <;> simp [hread, hleft]

theorem Member.starts (h : Member body value cs) (rest : List Char) :
    ∃ c cs', skipBlanks (cs ++ rest) = c :: cs' ∧ c ≠ '}' := by
  cases h with
  | mk hname _ =>
    cases hname with
    | mk hbefore _ =>
      simp only [inQuotes, List.append_assoc, List.cons_append]
      rw [hbefore.skipBlanks_cons rfl]
      exact ⟨'"', _, rfl, by decide⟩

theorem Member.last (h : Member body value cs) (hname : NamedAs body name)
    (hvalue : ReadsAs value v) : MembersAs cs [(name, v)] where
  starts := h.starts
  members := by
    intro depth fuel seen rest hdepth hfuel
    obtain ⟨fuel, rfl⟩ := Nat.exists_eq_add_one.mpr (Nat.zero_lt_of_lt hfuel)
    rw [h.members? hname hvalue brace_mark hdepth]
    simp only [List.reverse_cons]

theorem MembersAs.cons (hrest : MembersAs rest ms) (h : Member body value cs)
    (hname : NamedAs body name) (hvalue : ReadsAs value v) :
    MembersAs (cs ++ ',' :: rest) ((name, v) :: ms) where
  starts := by
    intro tail
    rw [List.append_assoc]
    exact h.starts _
  members := by
    intro depth fuel seen tail hdepth hfuel
    rw [List.length_append, List.length_cons] at hdepth hfuel
    obtain ⟨fuel, rfl⟩ := Nat.exists_eq_add_one.mpr (Nat.zero_lt_of_lt hfuel)
    have hdepth' : rest.length ≤ depth := by omega
    have hfuel' : rest.length < fuel := by omega
    rw [List.append_assoc, List.cons_append, h.members? hname hvalue comma_mark (by omega)]
    simp only [hrest.members hdepth' hfuel', List.reverse_cons, List.append_assoc,
      List.cons_append, List.nil_append]

/-! Each kind of value. -/

/-- A value is read from its first character, in a text one level deep. -/
theorem readsAs_of_step (hstarts : isBlank c = false ∧ c ≠ ']')
    (h : ∀ {depth : Nat} {rest : List Char}, cs.length ≤ depth → Follows rest →
      value? (depth + 1) (c :: (cs ++ rest)) = some (v, rest)) : ReadsAs (c :: cs) v where
  starts := ⟨c, cs, rfl, hstarts⟩
  value := by
    intro depth rest hdepth hrest
    obtain ⟨depth, rfl⟩ := Nat.exists_eq_add_one.mpr (Nat.zero_lt_of_lt hdepth)
    exact h (Nat.le_of_succ_le_succ hdepth) hrest

theorem readsAs_null : ReadsAs ['n', 'u', 'l', 'l'] .null :=
  readsAs_of_step (by decide) fun _ _ => rfl

theorem readsAs_true : ReadsAs ['t', 'r', 'u', 'e'] (.bool true) :=
  readsAs_of_step (by decide) fun _ _ => rfl

theorem readsAs_false : ReadsAs ['f', 'a', 'l', 's', 'e'] (.bool false) :=
  readsAs_of_step (by decide) fun _ _ => rfl

theorem NamedAs.readsAs (h : NamedAs body name) : ReadsAs (inQuotes body) (.string name) := by
  refine readsAs_of_step (by decide) fun _ _ => ?_
  rw [List.append_assoc, value?]
  exact congrArg (Option.map _) (h _)

theorem readsAs_noItems (h : Blanks cs) : ReadsAs ('[' :: (cs ++ [']'])) (.array []) := by
  refine readsAs_of_step (by decide) fun _ _ => ?_
  rw [List.append_assoc, value?, List.cons_append, h.skipBlanks_cons rfl]
  rfl

theorem ItemsAs.readsAs (h : ItemsAs cs vs) : ReadsAs ('[' :: (cs ++ [']'])) (.array vs) := by
  refine readsAs_of_step (by decide) fun {depth rest} hdepth _ => ?_
  obtain ⟨c, cs', hskip, hc⟩ := h.starts (']' :: rest)
  rw [List.append_assoc, value?, List.cons_append, List.nil_append]
  split
  next h => exact absurd (List.cons.inj (hskip.symm.trans h)).1 hc
  next =>
    rw [List.length_append] at hdepth
    exact h.items (Nat.le_of_succ_le hdepth) (by rw [List.length_append]; omega)

theorem readsAs_noMembers (h : Blanks cs) : ReadsAs ('{' :: (cs ++ ['}'])) (.object []) := by
  refine readsAs_of_step (by decide) fun _ _ => ?_
  rw [List.append_assoc, value?, List.cons_append, h.skipBlanks_cons rfl]
  rfl

theorem MembersAs.readsAs (h : MembersAs cs ms) :
    ReadsAs ('{' :: (cs ++ ['}'])) (.object ms) := by
  refine readsAs_of_step (by decide) fun {depth rest} hdepth _ => ?_
  obtain ⟨c, cs', hskip, hc⟩ := h.starts ('}' :: rest)
  rw [List.append_assoc, value?, List.cons_append, List.nil_append]
  split
  next h => exact absurd (List.cons.inj (hskip.symm.trans h)).1 hc
  next =>
    rw [List.length_append] at hdepth
    exact h.members (Nat.le_of_succ_le hdepth) (by rw [List.length_append]; omega)

/-- What starts like a number is read as one. -/
theorem value?_number (hc : c = '-' ∨ c.isDigit = true) (depth : Nat) (cs : List Char) :
    value? (depth + 1) (c :: cs) = (number? (c :: cs)).map fun (n, cs) => (.number n, cs) := by
  have other (c' : Char) (h : c' ≠ '-' ∧ c'.isDigit = false) : c ≠ c' := by
    rintro rfl
    rcases hc with hc | hc
    · exact h.1 hc
    · exact absurd hc (Bool.eq_false_iff.mp h.2)
  -- every other kind of value has a first character of its own
  unfold value?
  split
  next h => exact absurd (List.cons.inj h).1 (other '"' (by decide))
  next h => exact absurd (List.cons.inj h).1 (other '[' (by decide))
  next h => exact absurd (List.cons.inj h).1 (other '{' (by decide))
  next h => exact absurd (List.cons.inj h).1 (other 'n' (by decide))
  next h => exact absurd (List.cons.inj h).1 (other 't' (by decide))
  next h => exact absurd (List.cons.inj h).1 (other 'f' (by decide))
  next => rfl

theorem Number.readsAs_of {n : JsonNumber} (h : Number cs)
    (hn : ∀ {rest : List Char}, Follows rest → Json.number? (cs ++ rest) = some (n, rest)) :
    ReadsAs cs (.number n) := by
  obtain ⟨c, cs, rfl, hc⟩ := h.starts
  have hstarts : isBlank c = false ∧ c ≠ ']' := by
    rcases hc with rfl | hc
    · decide
    · refine ⟨Bool.eq_false_iff.mpr fun hblank => ?_, by rintro rfl; exact absurd hc (by decide)⟩
      simp only [isBlank, Bool.or_eq_true, beq_iff_eq] at hblank
      rcases hblank with ((rfl | rfl) | rfl) | rfl <;> exact absurd hc (by decide)
  refine readsAs_of_step hstarts fun _ hrest => ?_
  rw [value?_number hc, ← List.cons_append, hn hrest]
  rfl

theorem Number.readsAs (h : Number cs) : ∃ n, ReadsAs cs (.number n) := by
  obtain ⟨n, hn⟩ := h.number?
  exact ⟨n, h.readsAs_of hn⟩

/-- **A whole number is read by its digits.** -/
theorem Whole.readsAs {sign whole : List Char} (h : Whole whole) (hsign : sign ∈ [[], ['-']]) :
    ReadsAs (sign ++ whole) (.number ⟨decide (sign = ['-']), whole.map digitValue, [], none⟩) := by
  have hnumber : Number (sign ++ whole) := by
    have := Number.mk hsign h .absent .absent
    rwa [List.append_nil, List.append_nil] at this
  refine hnumber.readsAs_of fun {rest} hrest => ?_
  obtain ⟨hdigit, hhead⟩ := hrest.breaks_off
  rw [List.append_assoc, number?_append hsign h hdigit]
  cases rest with
  | nil => rfl
  | cons c rest =>
    obtain ⟨hpoint, he, hE⟩ := hhead c rfl
    simp [fraction?, exponent?, hpoint, he, hE]

/-- What is read of a stretch of each kind. -/
def IsRead : Kind → List Char → Prop
  | .value, cs => ∃ v, ReadsAs cs v
  | .items, cs => ∃ vs, ItemsAs cs vs
  | .members, cs => ∃ ms, MembersAs cs ms

/-- **All that the grammar derives is read**, by induction on the grammar. -/
theorem Derives.isRead {kind : Kind} (h : Derives kind cs) : IsRead kind cs := by
  -- one case for each rule, with the reader's step for that rule
  induction h with
  | null => exact ⟨_, readsAs_null⟩
  | true => exact ⟨_, readsAs_true⟩
  | false => exact ⟨_, readsAs_false⟩
  | number h =>
    obtain ⟨_, h⟩ := h.readsAs
    exact ⟨_, h⟩
  | string h =>
    obtain ⟨_, hname⟩ := h.namedAs
    exact ⟨_, hname.readsAs⟩
  | noItems h => exact ⟨_, readsAs_noItems h⟩
  | array _ ih =>
    obtain ⟨_, ih⟩ := ih
    exact ⟨_, ih.readsAs⟩
  | noMembers h => exact ⟨_, readsAs_noMembers h⟩
  | object _ ih =>
    obtain ⟨_, ih⟩ := ih
    exact ⟨_, ih.readsAs⟩
  | item _ hcs ih =>
    obtain ⟨_, ih⟩ := ih
    exact ⟨_, ih.items hcs⟩
  | items _ hcs _ ih ih' =>
    obtain ⟨_, ih⟩ := ih
    obtain ⟨_, ih'⟩ := ih'
    exact ⟨_, ih'.cons ih hcs⟩
  | member hbody _ hcs ih =>
    obtain ⟨_, hname⟩ := hbody.namedAs
    obtain ⟨_, ih⟩ := ih
    exact ⟨_, hcs.last hname ih⟩
  | members hbody _ hcs _ ih ih' =>
    obtain ⟨_, hname⟩ := hbody.namedAs
    obtain ⟨_, ih⟩ := ih
    obtain ⟨_, ih'⟩ := ih'
    exact ⟨_, ih'.cons hcs hname ih⟩

/-- **A text that is one value is read as that value**, whatever blanks stand around it. -/
theorem ReadsAs.read? {s : String} (h : ReadsAs cs v) (hs : Padded cs s.toList) :
    read? s = some v := by
  obtain ⟨text, htext⟩ : ∃ text, s.toList = text := ⟨_, rfl⟩
  rw [htext] at hs
  cases hs with
  | @mk before behind hbefore hbehind =>
    obtain ⟨c, cs', rfl, hc, -⟩ := h.starts
    have hread : value? ((c :: cs' ++ behind).length + 1) (c :: cs' ++ behind)
        = some (v, behind) :=
      h.value (by rw [List.length_append]; omega) hbehind.follows_end
    have hleft : skipBlanks behind = [] := by
      have := hbehind.skipBlanks []
      rwa [List.append_nil] at this
    have hskip : skipBlanks s.toList = c :: cs' ++ behind := by
      rw [htext, List.cons_append, hbefore.skipBlanks_cons hc]
    simp only [Json.read?, hskip, hread, hleft, List.isEmpty_nil, if_true]

end

end ServerWarden.Json
