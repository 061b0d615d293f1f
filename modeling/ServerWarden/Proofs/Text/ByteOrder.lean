/-
# The order of names is the order of their bytes

Names are compared character by character.  In UTF-8 a later character has later bytes: either it
is longer, and its first byte says so, or the bytes are its digits to the base 64, the highest in
front (`utf8EncodeChar_lt`).  So two texts stand in the order in which their bytes stand
(`lt_iff_encode_lt`), and what is sorted by name is sorted by bytes.
-/
import Mathlib.Data.List.Lex
import Mathlib.Data.String.Basic
import ServerWarden.Text.Utf8

namespace ServerWarden.Text.Utf8

/-! ## 1. The bytes of a text -/

theorem toList_loop (bytes : ByteArray) (i : Nat) (done : List UInt8) :
    ByteArray.toList.loop bytes i done = done.reverse ++ bytes.data.toList.drop i := by
  fun_induction ByteArray.toList.loop bytes i done with
  | case1 i done hi ih =>
    have hlength : i < bytes.data.toList.length := hi
    have hget : bytes.get! i = bytes.data.toList[i] := getElem!_pos bytes.data i hi
    rw [ih, List.drop_eq_getElem_cons hlength, hget, List.reverse_cons, List.append_assoc]
    rfl
  | case2 i done hi =>
    rw [List.drop_eq_nil_of_le (Nat.le_of_not_lt hi), List.append_nil]

/-- The form of a text is the forms of its characters, one after another. -/
theorem encode_eq_flatMap (text : String) :
    encode text = text.toList.flatMap String.utf8EncodeChar := by
  rw [encode, ByteArray.toList, toList_loop, String.toUTF8_eq_toByteArray,
    ← String.utf8Encode_toList]
  exact List.toList_data_toByteArray

/-! ## 2. Order -/

/-- **A later character has later bytes**, whatever follows the two. -/
theorem utf8EncodeChar_lt {c d : Char} (h : c < d) (s t : List UInt8) :
    String.utf8EncodeChar c ++ s < String.utf8EncodeChar d ++ t := by
  have hlt : c.val.toNat < d.val.toNat := UInt32.lt_iff_toNat_lt.mp h
  have hd : d.val.toNat < 0x110000 := by
    have hd := d.valid
    simp only [UInt32.isValidChar, Nat.isValidChar] at hd
    omega
  simp only [String.utf8EncodeChar]
  generalize c.val.toNat = m at hlt
  generalize d.val.toNat = n at hlt hd
  -- the digits to the base 64, each from the one before it
  have hsecond (k : Nat) : k / 4096 = k / 64 / 64 := by omega
  have hthird (k : Nat) : k / 262144 = k / 64 / 64 / 64 := by omega
  simp only [hsecond, hthird]
  split_ifs
  all_goals
    simp only [List.cons_append, List.nil_append, List.cons_lt_cons_iff, UInt8.lt_iff_toNat_lt,
      ← UInt8.toNat_inj, UInt8.toNat_ofNat']
    omega

theorem flatMap_utf8EncodeChar_lt {l l' : List Char} (h : l < l') :
    l.flatMap String.utf8EncodeChar < l'.flatMap String.utf8EncodeChar := by
  induction h with
  | @nil c l =>
    have hne : String.utf8EncodeChar c ≠ [] := by
      rw [← List.length_pos_iff, String.length_utf8EncodeChar]
      exact c.utf8Size_pos
    obtain ⟨b, bytes, hb⟩ := List.exists_cons_of_ne_nil hne
    rw [List.flatMap_cons, hb]
    exact List.nil_lt_cons ..
  | cons _ ih => exact List.append_left_lt ih
  | rel hlt => exact utf8EncodeChar_lt hlt _ _

/-- **Texts stand in the order of their bytes.** -/
theorem lt_iff_encode_lt {a b : String} : a < b ↔ encode a < encode b := by
  have hmono {a b : String} (h : a < b) : encode a < encode b := by
    rw [encode_eq_flatMap, encode_eq_flatMap]
    exact flatMap_utf8EncodeChar_lt (String.lt_iff_toList_lt.mp h)
  refine ⟨hmono, ?_⟩
  intro h
  rcases lt_trichotomy a b with hlt | rfl | hgt
  · exact hlt
  · exact absurd h (List.lt_irrefl _)
  · exact absurd h (List.lt_asymm (hmono hgt))

end ServerWarden.Text.Utf8
