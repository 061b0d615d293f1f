/-
# Blank characters

Which characters separate words, and how a text is stripped of them at its ends.  The class is
Unicode's White_Space property, so it holds the no-break space and the ideographic space but not
the zero-width space and not the byte-order mark.  `trim` is what the settings reader uses to tell
a blank name from a present one.
-/

namespace ServerWarden.Text

/-- The 25 characters with the White_Space property. -/
def isBlank (c : Char) : Bool :=
  let n := c.toNat
  (0x09 ≤ n && n ≤ 0x0D) || n == 0x20 || n == 0x85 || n == 0xA0 || n == 0x1680 ||
    (0x2000 ≤ n && n ≤ 0x200A) || n == 0x2028 || n == 0x2029 || n == 0x202F || n == 0x205F ||
    n == 0x3000

/-- The list without the elements at its end that satisfy `p`. -/
def dropWhileEnd {α : Type} (p : α → Bool) (xs : List α) : List α :=
  (xs.reverse.dropWhile p).reverse

/-- The characters between the first and the last that is not blank. -/
def trimChars (cs : List Char) : List Char :=
  dropWhileEnd isBlank (cs.dropWhile isBlank)

/-- The text between the first and the last character that is not blank. -/
def trim (s : String) : String :=
  String.ofList (trimChars s.toList)

end ServerWarden.Text
