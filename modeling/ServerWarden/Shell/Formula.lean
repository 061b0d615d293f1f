/-
# Formulas

Whole numbers with the usual operators; a name stands for the value of a variable, and for zero if
it has none.
-/

namespace ServerWarden.Shell

/-- The signs of a formula. -/
inductive Sign where
  | number (n : Int)
  | name (s : String)
  | operator (s : String)
  deriving DecidableEq, Repr

/-- The operators of two characters. -/
def longOperators : List String := ["<=", ">=", "==", "!=", "&&", "||"]

/-- Cuts a formula into signs.  `fuel` bounds their number. -/
def signs? : Nat → List Char → Option (List Sign)
  | 0, _ => none
  | _ + 1, [] => some []
  | fuel + 1, c :: rest =>
    if c = ' ' ∨ c = '\t' ∨ c = '\n' ∨ c = '$' then signs? fuel rest
    else if c.isDigit then
      let digits := (c :: rest).takeWhile Char.isDigit
      (signs? fuel ((c :: rest).drop digits.length)).map
        (.number ((String.ofList digits).toNat?.getD 0) :: ·)
    else if c.isAlpha ∨ c = '_' then
      let name := (c :: rest).takeWhile fun c => c.isAlphanum || c = '_'
      (signs? fuel ((c :: rest).drop name.length)).map (.name (String.ofList name) :: ·)
    else
      let long := String.ofList ((c :: rest).take 2)
      if longOperators.contains long then (signs? fuel (rest.drop 1)).map (.operator long :: ·)
      else (signs? fuel rest).map (.operator (String.singleton c) :: ·)

/-- How tightly an operator binds. -/
def strength? : String → Option Nat
  | "||" => some 1
  | "&&" => some 2
  | "==" | "!=" => some 3
  | "<" | ">" | "<=" | ">=" => some 4
  | "+" | "-" => some 5
  | "*" | "/" | "%" => some 6
  | _ => none

def ofBool (b : Bool) : Int := if b then 1 else 0

/-- The value of an operator, if it has one. -/
def operate? (op : String) (a b : Int) : Option Int :=
  match op with
  | "||" => some (ofBool (a ≠ 0 || b ≠ 0))
  | "&&" => some (ofBool (a ≠ 0 && b ≠ 0))
  | "==" => some (ofBool (a = b))
  | "!=" => some (ofBool (a ≠ b))
  | "<" => some (ofBool (a < b))
  | ">" => some (ofBool (b < a))
  | "<=" => some (ofBool (a ≤ b))
  | ">=" => some (ofBool (b ≤ a))
  | "+" => some (a + b)
  | "-" => some (a - b)
  | "*" => some (a * b)
  | "/" => if b = 0 then none else some (a.tdiv b)
  | "%" => if b = 0 then none else some (a.tmod b)
  | _ => none

/-- The value of the longest formula at the start whose operators bind at least as tightly as
`least`; without a left side, of a single operand.  `fuel` bounds the steps. -/
def value? (lookup : String → Int) :
    Nat → (left : Option Int) → (least : Nat) → List Sign → Option (Int × List Sign)
  | 0, _, _, _ => none
  | fuel + 1, none, least, ss =>
    match ss with
    | .number n :: rest => value? lookup fuel (some n) least rest
    | .name s :: rest => value? lookup fuel (some (lookup s)) least rest
    | .operator "-" :: rest =>
      (value? lookup fuel none 7 rest).bind fun (n, rest) =>
        value? lookup fuel (some (-n)) least rest
    | .operator "+" :: rest => value? lookup fuel none least rest
    | .operator "!" :: rest =>
      (value? lookup fuel none 7 rest).bind fun (n, rest) =>
        value? lookup fuel (some (ofBool (n = 0))) least rest
    | .operator "(" :: rest =>
      (value? lookup fuel none 1 rest).bind fun
        | (n, .operator ")" :: rest) => value? lookup fuel (some n) least rest
        | _ => none
    | _ => none
  | fuel + 1, some left, least, ss =>
    match ss with
    | .operator op :: rest =>
      match strength? op with
      | none => some (left, ss)
      | some strength =>
        if strength < least then some (left, ss)
        else
          (value? lookup fuel none (strength + 1) rest).bind fun (right, rest) =>
            (operate? op left right).bind fun n => value? lookup fuel (some n) least rest
    | _ => some (left, ss)

/-- The value of a formula. -/
def evaluate? (lookup : String → Int) (cs : List Char) : Option Int := do
  let ss ← signs? (cs.length + 1) cs
  if ss.isEmpty then return 0
  else
    match ← value? lookup (4 * ss.length + 8) none 1 ss with
    | (n, []) => return n
    | _ => none

end ServerWarden.Shell
