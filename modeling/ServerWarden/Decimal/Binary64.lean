/-
# Binary64 numbers from decimals

A number with a fraction or an exponent is kept as the binary64 value nearest to it, a tie going to
the even mantissa.  All of it is exact arithmetic on natural numbers: the decimal is a ratio, the
ratio is scaled until its integer part has 53 bits, and the remainder decides the rounding.
Nothing here depends on a machine's floating point.
-/

namespace ServerWarden.Decimal

/-- A binary64 value.  A finite one is `mantissa * 2 ^ exponent`, with fewer than 54 bits in the
mantissa and an exponent of at least -1074. -/
inductive Binary64 where
  | nan
  | infinite (negative : Bool)
  | finite (negative : Bool) (mantissa : Nat) (exponent : Int)
  deriving DecidableEq, Repr, Inhabited

namespace Binary64

/-- The exponent of the smallest positive value. -/
def leastExponent : Int := -1074

/-- The exponent of the largest finite value. -/
def greatestExponent : Int := 971

/-- The quotient to the nearest whole number, a tie to the even one. -/
def divNearest (num den : Nat) : Nat :=
  let q := num / den
  let r := num % den
  if 2 * r < den then q
  else if den < 2 * r then q + 1
  else if q % 2 = 0 then q else q + 1

/-- `num / (den * 2 ^ e)` to the nearest whole number. -/
def scaledNearest (num den : Nat) (e : Int) : Nat :=
  if 0 ≤ e then divNearest num (den * Nat.pow 2 e.toNat)
  else divNearest (num * Nat.pow 2 (-e).toNat) den

/-- The exponent that leaves 53 bits of `num / den` before the point. -/
def exponentFor (num den : Nat) : Int :=
  let guess : Int := (Nat.log2 num : Int) - (Nat.log2 den : Int) - 52
  let low := if 0 ≤ guess then num < den * Nat.pow 2 guess.toNat * Nat.pow 2 52
    else num * Nat.pow 2 (-guess).toNat < den * Nat.pow 2 52
  max (if low then guess - 1 else guess) leastExponent

/-- The value nearest to `num / den`, for a positive `den`. -/
def ofRatio (negative : Bool) (num den : Nat) : Binary64 :=
  if num = 0 then finite negative 0 leastExponent
  else
    let e := exponentFor num den
    let m := scaledNearest num den e
    let (m, e) := if m = Nat.pow 2 53 then (Nat.pow 2 52, e + 1) else (m, e)
    if greatestExponent < e then infinite negative else finite negative m e

/-- Beyond this many places a decimal is out of range, whatever its digits. -/
def placeLimit : Int := 400

/-- The value nearest to `digits * 10 ^ exponent`. -/
def ofDecimal (negative : Bool) (digits : Nat) (exponent : Int) : Binary64 :=
  if digits = 0 then finite negative 0 leastExponent
  else
    let places : Int := (Nat.toDigits 10 digits).length + exponent
    if placeLimit < places then infinite negative
    else if places < -placeLimit then finite negative 0 leastExponent
    else if 0 ≤ exponent then ofRatio negative (digits * Nat.pow 10 exponent.toNat) 1
    else ofRatio negative digits (Nat.pow 10 (-exponent).toNat)

/-- Whether the value is one of the infinities. -/
def isInfinite : Binary64 → Bool
  | infinite _ => true
  | _ => false

end Binary64
end ServerWarden.Decimal
