/-
# JSON values

A value as it is written: members in their order, repeated ones included, and numbers digit by
digit.  A text is missing where its escapes name half of a surrogate pair, since there is no such
character; such a text may be passed over but not used.
-/
import ServerWarden.Decimal.Binary64

namespace ServerWarden

/-- A number as written. -/
structure JsonNumber where
  negative : Bool
  /-- The digits before the point. -/
  whole : List Nat
  /-- The digits after the point; none when there is no point. -/
  fraction : List Nat
  /-- The exponent, if one is written. -/
  exponent : Option Int
  deriving DecidableEq, Repr, Inhabited

inductive Json where
  | null
  | bool (b : Bool)
  | number (n : JsonNumber)
  | string (text : Option String)
  | array (items : List Json)
  | object (members : List (Option String × Json))
  deriving Inhabited

namespace JsonNumber

/-- The number that digits spell. -/
def ofDigits (ds : List Nat) : Nat := ds.foldl (fun n d => n * 10 + d) 0

/-- The whole number that is written without point and exponent.  A minus in front of zero makes it
a fraction's zero, which is no whole number. -/
def int? (n : JsonNumber) : Option Int :=
  if n.fraction ≠ [] ∨ n.exponent.isSome then none
  else
    let v : Int := ofDigits n.whole
    if n.negative then (if v = 0 then none else some (-v)) else some v

/-- The largest significand that is kept exactly. -/
def significandLimit : Nat := Nat.pow 2 64

/-- Takes digits into a significand as long as it stays below the limit.  Answers the significand,
the number of digits taken and those that are left. -/
def takeDigits (value taken : Nat) : List Nat → Nat × Nat × List Nat
  | [] => (value, taken, [])
  | d :: ds =>
    if value * 10 + d < significandLimit then takeDigits (value * 10 + d) (taken + 1) ds
    else (value, taken, d :: ds)

/-- The leading digits as a whole number, and the power of ten to scale it by. -/
def parts (n : JsonNumber) : Nat × Int :=
  let (value, _, dropped) := takeDigits 0 0 n.whole
  let (value, taken, _) := takeDigits value 0 n.fraction
  (value, (dropped.length : Int) - taken + n.exponent.getD 0)

/-- The largest power of ten that a binary64 value comes near. -/
def greatestPower : Int := 308

/-- Whether the number is small enough for a binary64 value.  The significand and the power of ten
are rounded on their own before they are multiplied. -/
def inRange (n : JsonNumber) : Bool :=
  let (value, power) := n.parts
  if value = 0 ∨ power ≤ 0 then true
  else if greatestPower < power then false
  else
    match Decimal.Binary64.ofDecimal false value 0, Decimal.Binary64.ofDecimal false 1 power with
    | .finite _ m e, .finite _ m' e' =>
      let scale := e + e'
      let product :=
        Decimal.Binary64.ofRatio false (m * m' * Nat.pow 2 scale.toNat) (Nat.pow 2 (-scale).toNat)
      !product.isInfinite
    | _, _ => false

/-- The natural number below `2 ^ 64` that is written without point and exponent. -/
def nat64? (n : JsonNumber) : Option Nat :=
  match n.int? with
  | some v => if 0 ≤ v ∧ v < significandLimit then some v.toNat else none
  | none => none

end JsonNumber
end ServerWarden
