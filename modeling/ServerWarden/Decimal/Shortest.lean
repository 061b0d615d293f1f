/-
# The shortest decimal that reads back

A positive value `m * 2 ^ e` owns the interval of reals that round to it; its ends belong to it
when `m` is even.  `shortest` takes the least number of digits for which some decimal of that
length lies in the interval, and of the two neighbours of the value on that grid the nearer one, a
tie going up.  `Binary64.text` writes the result in positional form, without an exponent however
large or small the value is.
-/
import ServerWarden.Decimal.Binary64

namespace ServerWarden.Decimal

/-- A decimal `digits * 10 ^ exponent`. -/
structure Digits where
  digits : Nat
  exponent : Int
  deriving DecidableEq, Repr

/-- Three ratios with one denominator: the value, and the ends of the interval that rounds to it. -/
structure Interval where
  low : Nat
  value : Nat
  high : Nat
  den : Nat
  /-- Whether the ends round to the value as well. -/
  closed : Bool

/-- The interval of the positive value `m * 2 ^ e`.  Below a power of two the gap is half as wide.
-/
def Interval.of (m : Nat) (e : Int) : Interval :=
  let below := if m = Nat.pow 2 52 ∧ Binary64.leastExponent < e then 1 else 2
  let scale := Nat.pow 2 e.toNat
  { low := (4 * m - below) * scale
    value := 4 * m * scale
    high := (4 * m + 2) * scale
    den := 4 * Nat.pow 2 (-e).toNat
    closed := m % 2 = 0 }

/-- Whether `d * 10 ^ k` lies in the interval. -/
def Interval.holds (i : Interval) (d : Nat) (k : Int) : Bool :=
  let x := d * Nat.pow 10 k.toNat * i.den
  let unit := Nat.pow 10 (-k).toNat
  if i.closed then decide (i.low * unit ≤ x ∧ x ≤ i.high * unit)
  else decide (i.low * unit < x ∧ x < i.high * unit)

/-- The number of places before the point of `num / den`, zero or negative below one tenth. -/
def placesOf (num den : Nat) : Int :=
  let guess : Int := (Nat.toDigits 10 num).length - (Nat.toDigits 10 den).length
  let reaches (k : Int) : Bool := decide (den * Nat.pow 10 k.toNat ≤ num * Nat.pow 10 (-k).toNat)
  if reaches guess then guess + 1 else guess

/-- The neighbours of the value on the grid of `10 ^ k`, and whether the upper one is at least as
near as the lower. -/
def Interval.neighbours (i : Interval) (k : Int) : Nat × Bool :=
  let num := i.value * Nat.pow 10 (-k).toNat
  let den := i.den * Nat.pow 10 k.toNat
  (num / den, decide (den ≤ 2 * (num % den)))

/-- The decimal of at most `n` digits that reads back, the nearest if there are two. -/
def Interval.decimal? (i : Interval) (n : Nat) : Option Digits :=
  let k : Int := placesOf i.value i.den - n
  let (down, upIsNear) := i.neighbours k
  match i.holds down k, i.holds (down + 1) k with
  | true, true => some ⟨if upIsNear then down + 1 else down, k⟩
  | true, false => some ⟨down, k⟩
  | false, true => some ⟨down + 1, k⟩
  | false, false => none

/-- The most digits that a binary64 value ever needs. -/
def mostDigits : Nat := 17

/-- The shortest decimal that reads back as `m * 2 ^ e`. -/
def shortest (m : Nat) (e : Int) : Digits :=
  let i := Interval.of m e
  ((List.range mostDigits).findSome? fun n => i.decimal? (n + 1)).getD ⟨0, 0⟩

/-- Digits in positional form, without zeros that say nothing. -/
def Digits.text (d : Digits) : String :=
  let cs := Nat.toDigits 10 d.digits
  let kept := (cs.reverse.dropWhile (· = '0')).reverse
  let exponent := d.exponent + (cs.length - kept.length : Nat)
  let point : Int := kept.length + exponent
  let zeros (n : Int) : List Char := List.replicate n.toNat '0'
  String.ofList <|
    if 0 ≤ exponent then kept ++ zeros exponent
    else if 0 < point then kept.take point.toNat ++ '.' :: kept.drop point.toNat
    else '0' :: '.' :: zeros (-point) ++ kept

/-- A value as the shortest decimal that reads back, in positional form. -/
def Binary64.text : Binary64 → String
  | .nan => "NaN"
  | .infinite negative => if negative then "-inf" else "inf"
  | .finite negative m e =>
    let body := if m = 0 then "0" else (shortest m e).text
    if negative then "-" ++ body else body

end ServerWarden.Decimal
