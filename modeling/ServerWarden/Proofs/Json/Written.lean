/-
# What is written is JSON

A text in quotes and a whole number in decimal digits follow the grammar, and so they are read back
as what was written: a character from its escape (`escapeChar_form`), a number from its digits
(`readsAs_decimal`).  A text in quotes holds no control character, whatever was quoted.
-/
import ServerWarden.Json.Quoted
import ServerWarden.Proofs.Json.Completeness

namespace ServerWarden.Json

/-! ## 1. Texts in quotes -/

section

variable {c d : Char} {cs : List Char}

theorem hexDigit_digit {v : Nat} (hv : v < 16) : Digit v (hexDigit v) := by
  interval_cases v <;> exact .inl rfl

/-- What an escape is: a letter, the code of a control character, or the character itself. -/
theorem escapeChar_cases (c : Char) : (∃ e, Letter e c ∧ escapeChar c = ['\\', e]) ∨
    (c.toNat < 0x20 ∧ escapeChar c
      = ['\\', 'u', '0', '0', hexDigit (c.toNat / 16), hexDigit (c.toNat % 16)]) ∨
    (IsPlain c ∧ escapeChar c = [c]) := by
  by_cases hletter : c ∈ ['"', '\\', '\x08', '\x0C', '\n', '\r', '\t']
  · left
    simp only [List.mem_cons, List.not_mem_nil, or_false] at hletter
    rcases hletter with rfl | rfl | rfl | rfl | rfl | rfl | rfl
    · exact ⟨_, .quote, rfl⟩
    · exact ⟨_, .backslash, rfl⟩
    · exact ⟨_, .backspace, rfl⟩
    · exact ⟨_, .formFeed, rfl⟩
    · exact ⟨_, .newline, rfl⟩
    · exact ⟨_, .carriageReturn, rfl⟩
    · exact ⟨_, .tab, rfl⟩
  · right
    simp only [List.mem_cons, List.not_mem_nil, or_false, not_or] at hletter
    by_cases hcontrol : c.toNat < 0x20
    · exact .inl ⟨hcontrol, by simp [escapeChar, hletter, hcontrol]⟩
    · exact .inr ⟨⟨hletter.1, hletter.2.1, Nat.le_of_not_lt hcontrol⟩,
        by simp [escapeChar, hletter, hcontrol]⟩

/-- **An escape is one of the forms of its character.** -/
theorem escapeChar_form (c : Char) : CharForm c (escapeChar c) := by
  obtain ⟨e, he, hform⟩ | ⟨hcontrol, hform⟩ | ⟨hplain, hform⟩ := escapeChar_cases c
  · exact hform ▸ .letter he
  · have hcode : Code (((0 * 16 + 0) * 16 + c.toNat / 16) * 16 + c.toNat % 16)
        ['0', '0', hexDigit (c.toNat / 16), hexDigit (c.toNat % 16)] :=
      .mk (.inl rfl) (.inl rfl) (hexDigit_digit (by omega)) (hexDigit_digit (by omega))
    rw [show ((0 * 16 + 0) * 16 + c.toNat / 16) * 16 + c.toNat % 16 = c.toNat by omega] at hcode
    exact hform ▸ .code hcode
  · exact hform ▸ .plain hplain

theorem spelled_escaped (cs : List Char) : Spelled cs (cs.flatMap escapeChar) := by
  induction cs with
  | nil => exact .nil
  | cons c cs ih => exact .cons (escapeChar_form c) ih

theorem quote_eq (cs : List Char) : quote cs = inQuotes (cs.flatMap escapeChar) := rfl

theorem hexDigit_printable {v : Nat} (hv : v < 16) : 0x20 ≤ (hexDigit v).toNat := by
  interval_cases v <;> decide

/-- No control character is left in an escape. -/
theorem escapeChar_printable (h : d ∈ escapeChar c) : 0x20 ≤ d.toNat := by
  obtain ⟨e, he, hform⟩ | ⟨hcontrol, hform⟩ | ⟨hplain, hform⟩ := escapeChar_cases c
  · rw [hform, List.mem_pair] at h
    rcases h with rfl | rfl
    · decide
    · cases he <;> decide
  · simp only [hform, List.mem_cons, List.not_mem_nil, or_false] at h
    rcases h with rfl | rfl | rfl | rfl | rfl | rfl
    · decide
    · decide
    · decide
    · decide
    · exact hexDigit_printable (by omega)
    · exact hexDigit_printable (by omega)
  · rw [hform, List.mem_singleton] at h
    exact h ▸ hplain.not_control

theorem quote_printable (h : d ∈ quote cs) : 0x20 ≤ d.toNat := by
  simp only [quote, List.mem_append, List.mem_cons, List.mem_flatMap, List.not_mem_nil,
    or_false] at h
  rcases h with (rfl | ⟨c, -, hd⟩) | rfl
  · decide
  · exact escapeChar_printable hd
  · decide

end

/-! ## 2. Whole numbers in decimal digits -/

theorem head_toDigits {n : Nat} (hn : n ≠ 0) : (Nat.toDigits 10 n).head? ≠ some '0' := by
  induction n using Nat.strong_induction_on with
  | _ n ih =>
    by_cases h : n < 10
    · rw [Nat.toDigits_of_lt_base h]
      interval_cases n <;> first | exact absurd rfl hn | decide
    · rw [Nat.toDigits_of_base_le (by decide) (by omega),
        List.head?_append_of_ne_nil _ Nat.toDigits_ne_nil]
      exact ih (n / 10) (by omega) (by omega)

theorem toDigits_whole (n : Nat) : Whole (Nat.toDigits 10 n) where
  ne_nil := Nat.toDigits_ne_nil
  digit _ h := Nat.isDigit_of_mem_toDigits (by decide) (by decide) h
  lead := by
    by_cases hn : n = 0
    · exact .inl (hn ▸ rfl)
    · exact .inr (head_toDigits hn)

theorem ofDigits_toDigits (n : Nat) :
    JsonNumber.ofDigits ((Nat.toDigits 10 n).map digitValue) = n := by
  have hfold : JsonNumber.ofDigits ((Nat.toDigits 10 n).map digitValue)
      = Nat.ofDigitChars 10 (Nat.toDigits 10 n) 0 := by
    rw [JsonNumber.ofDigits, List.foldl_map, Nat.ofDigitChars]
    congr
    funext m c
    rw [Nat.mul_comm]
    rfl
  rw [hfold, Nat.ofDigitChars_toDigits (by decide) (by decide)]

/-- A whole number in decimal digits: a minus in front of what is below zero, and no other sign. -/
theorem toList_toString (i : Int) : (toString i).toList
    = (if i < 0 then ['-'] else []) ++ Nat.toDigits 10 i.natAbs := by
  rw [Int.toString_eq_repr, Int.repr_eq_if]
  by_cases hi : i < 0
  · rw [if_neg (by omega), if_pos hi, String.toList_append, Nat.toList_repr]
    have : (-i).toNat = i.natAbs := by omega
    rw [this]
    rfl
  · rw [if_pos (by omega), if_neg hi, Nat.toList_repr]
    have : i.toNat = i.natAbs := by omega
    rw [this]
    rfl

theorem decimal_printable {i : Int} {c : Char} (h : c ∈ (toString i).toList) : 0x20 ≤ c.toNat := by
  rw [toList_toString, List.mem_append] at h
  rcases h with h | h
  · split at h
    · obtain rfl := List.mem_singleton.mp h
      decide
    · exact absurd h List.not_mem_nil
  · have hdigit := Nat.isDigit_of_mem_toDigits (by decide) (by decide) h
    simp only [Char.isDigit, Bool.and_eq_true, decide_eq_true_eq, ge_iff_le,
      UInt32.le_iff_toNat_le] at hdigit
    exact Nat.le_trans (by decide) hdigit.1

/-- **A whole number is read back from its decimal digits.** -/
theorem readsAs_decimal (i : Int) :
    ∃ n, ReadsAs (toString i).toList (.number n) ∧ n.int? = some i := by
  rw [toList_toString]
  by_cases hi : i < 0
  · have hvalue : (i.natAbs : Int) = -i := by omega
    have hne : ¬ -i = 0 := by omega
    rw [if_pos hi]
    refine ⟨_, (toDigits_whole i.natAbs).readsAs (by decide), ?_⟩
    simp only [JsonNumber.int?, ofDigits_toDigits, hvalue]
    simp [hne]
  · have hvalue : (i.natAbs : Int) = i := by omega
    rw [if_neg hi]
    refine ⟨_, (toDigits_whole i.natAbs).readsAs (by decide), ?_⟩
    simp only [JsonNumber.int?, ofDigits_toDigits, hvalue]
    simp

end ServerWarden.Json
