/-
# The grammar of JSON

Which texts are JSON, said without the reader: digits, texts between quotes, numbers, and values of
any nesting with blanks around every token (`Derives`).  A text between quotes may be written in
more than one way: a character as it is, by a letter behind a backslash, or by its code in four
hexadecimal digits, two such codes for a character beyond the first 65536 (`Spelled`).  The grammar
alone allows codes that stand for no character (`Body`).

`Derives` is one relation over three kinds of stretches, since arrays and objects hold values and
values may be arrays and objects.
-/
import Mathlib.Data.List.Basic
import ServerWarden.Json.Reader

namespace ServerWarden.Json

/-! ## 1. Texts between quotes -/

/-- `Digit v c`: a hexadecimal digit with its value. -/
def Digit (v : Nat) (c : Char) : Prop :=
  "0123456789abcdef".toList[v]? = some c ∨ "0123456789ABCDEF".toList[v]? = some c

/-- `Code u cs`: four hexadecimal digits with their value. -/
inductive Code : Nat → List Char → Prop where
  | mk {v v' v'' v''' : Nat} {a b c d : Char} : Digit v a → Digit v' b → Digit v'' c →
      Digit v''' d → Code (((v * 16 + v') * 16 + v'') * 16 + v''') [a, b, c, d]

/-- `Letter e c`: the letter that stands for a character behind a backslash. -/
inductive Letter : Char → Char → Prop where
  | quote : Letter '"' '"'
  | backslash : Letter '\\' '\\'
  | slash : Letter '/' '/'
  | backspace : Letter 'b' '\x08'
  | formFeed : Letter 'f' '\x0C'
  | newline : Letter 'n' '\n'
  | carriageReturn : Letter 'r' '\r'
  | tab : Letter 't' '\t'

/-- A character that may stand for itself. -/
structure IsPlain (c : Char) : Prop where
  not_quote : c ≠ '"'
  not_backslash : c ≠ '\\'
  not_control : 0x20 ≤ c.toNat

/-- How a character is written between quotes. -/
inductive CharForm (c : Char) : List Char → Prop where
  | plain : IsPlain c → CharForm c [c]
  | letter {e : Char} : Letter e c → CharForm c ['\\', e]
  | code {cs : List Char} : Code c.toNat cs → CharForm c ('\\' :: 'u' :: cs)
  | pair {high low : Nat} {cs cs' : List Char} : Code (0xD800 + high) cs →
      Code (0xDC00 + low) cs' → high < 0x400 → low < 0x400 →
      c.toNat = 0x10000 + high * 0x400 + low →
      CharForm c ('\\' :: 'u' :: (cs ++ '\\' :: 'u' :: cs'))

/-- `Spelled word body`: a text as it may be written between quotes. -/
inductive Spelled : List Char → List Char → Prop where
  | nil : Spelled [] []
  | cons {c : Char} {cs word body : List Char} : CharForm c cs → Spelled word body →
      Spelled (c :: word) (cs ++ body)

/-- What may stand between quotes, whether it spells a text or not. -/
inductive Body : List Char → Prop where
  | nil : Body []
  | plain {c : Char} {body : List Char} : IsPlain c → Body body → Body (c :: body)
  | letter {e c : Char} {body : List Char} : Letter e c → Body body → Body ('\\' :: e :: body)
  | code {u : Nat} {cs body : List Char} : Code u cs → Body body →
      Body ('\\' :: 'u' :: (cs ++ body))

theorem CharForm.body {c : Char} {cs body : List Char} (h : CharForm c cs) (hbody : Body body) :
    Body (cs ++ body) := by
  cases h with
  | plain hc => exact .plain hc hbody
  | letter he => exact .letter he hbody
  | code hcode => exact .code hcode hbody
  | pair hhigh hlow _ _ _ =>
    rw [List.cons_append, List.cons_append, List.append_assoc]
    exact .code hhigh (.code hlow hbody)

theorem Spelled.body {word body : List Char} (h : Spelled word body) : Body body := by
  induction h with
  | nil => exact .nil
  | cons hc _ ih => exact hc.body ih

/-- What stands between quotes, with them. -/
def inQuotes (body : List Char) : List Char := '"' :: (body ++ ['"'])

/-! ## 2. Numbers -/

/-- At least one digit. -/
structure Digits (cs : List Char) : Prop where
  ne_nil : cs ≠ []
  digit : ∀ c ∈ cs, c.isDigit = true

/-- The digits before the point: no zero in front of others. -/
structure Whole (cs : List Char) : Prop extends Digits cs where
  lead : cs = ['0'] ∨ cs.head? ≠ some '0'

inductive Fraction : List Char → Prop where
  | absent : Fraction []
  | present {cs : List Char} : Digits cs → Fraction ('.' :: cs)

inductive Exponent : List Char → Prop where
  | absent : Exponent []
  | present {mark : Char} {sign cs : List Char} : mark ∈ ['e', 'E'] → sign ∈ [[], ['+'], ['-']] →
      Digits cs → Exponent (mark :: (sign ++ cs))

inductive Number : List Char → Prop where
  | mk {sign whole fraction exponent : List Char} : sign ∈ [[], ['-']] → Whole whole →
      Fraction fraction → Exponent exponent →
      Number (sign ++ (whole ++ (fraction ++ exponent)))

/-! ## 3. Values -/

/-- Blanks, or nothing. -/
def Blanks (cs : List Char) : Prop := ∀ c ∈ cs, isBlank c = true

/-- `Padded cs cs'`: `cs'` is `cs` with blanks around it. -/
inductive Padded (cs : List Char) : List Char → Prop where
  | mk {before behind : List Char} : Blanks before → Blanks behind →
      Padded cs (before ++ (cs ++ behind))

theorem Padded.refl (cs : List Char) : Padded cs cs := by
  have hnone : Blanks [] := fun _ h => absurd h List.not_mem_nil
  have := @Padded.mk cs _ _ hnone hnone
  rwa [List.append_nil] at this

theorem Padded.of_eq {cs cs' : List Char} (h : cs' = cs) : Padded cs cs' := h ▸ .refl cs

/-- `Member body value cs`: a member with its name between quotes and its value. -/
inductive Member (body value : List Char) : List Char → Prop where
  | mk {name cs : List Char} : Padded (inQuotes body) name → Padded value cs →
      Member body value (name ++ ':' :: cs)

theorem Member.plain (body value : List Char) :
    Member body value (inQuotes body ++ ':' :: value) :=
  .mk (.refl _) (.refl _)

/-- The kinds of stretches: a value, the items of an array, the members of an object. -/
inductive Kind where
  | value
  | items
  | members

/-- **`Derives kind cs`: the grammar.** -/
inductive Derives : Kind → List Char → Prop where
  | null : Derives .value "null".toList
  | true : Derives .value "true".toList
  | false : Derives .value "false".toList
  | number {cs : List Char} : Number cs → Derives .value cs
  | string {body : List Char} : Body body → Derives .value (inQuotes body)
  | noItems {cs : List Char} : Blanks cs → Derives .value ('[' :: (cs ++ [']']))
  | array {cs : List Char} : Derives .items cs → Derives .value ('[' :: (cs ++ [']']))
  | noMembers {cs : List Char} : Blanks cs → Derives .value ('{' :: (cs ++ ['}']))
  | object {cs : List Char} : Derives .members cs → Derives .value ('{' :: (cs ++ ['}']))
  | item {value cs : List Char} : Derives .value value → Padded value cs → Derives .items cs
  | items {value cs rest : List Char} : Derives .value value → Padded value cs →
      Derives .items rest → Derives .items (cs ++ ',' :: rest)
  | member {body value cs : List Char} : Body body → Derives .value value →
      Member body value cs → Derives .members cs
  | members {body value cs rest : List Char} : Body body → Derives .value value →
      Member body value cs → Derives .members rest → Derives .members (cs ++ ',' :: rest)

/-- `Members ms cs`: the members of an object as they may be written, each with its name and its
value as it stands. -/
inductive Members : List (String × List Char) → List Char → Prop where
  | one {name : String} {body value cs : List Char} : Spelled name.toList body →
      Member body value cs → Members [(name, value)] cs
  | cons {name : String} {body value cs rest : List Char} {ms : List (String × List Char)} :
      Spelled name.toList body → Member body value cs → Members ms rest →
      Members ((name, value) :: ms) (cs ++ ',' :: rest)

end ServerWarden.Json
