/-
# Numbers of a settings document

Whole numbers in four bases and decimals with a point or an exponent.  A single underscore may stand
between two digits.  A decimal number has no zeros in front, a base other than ten takes no sign,
and a decimal that no binary64 value is near to is refused.
-/
import ServerWarden.Toml.Value

namespace ServerWarden.Toml.Number

/-- The value of a digit in a base up to sixteen. -/
def digit? (base : Nat) (c : Char) : Option Nat :=
  let v :=
    if c.isDigit then c.toNat - '0'.toNat
    else if 'a' ≤ c ∧ c ≤ 'f' then c.toNat - 'a'.toNat + 10
    else if 'A' ≤ c ∧ c ≤ 'F' then c.toNat - 'A'.toNat + 10
    else base
  if v < base then some v else none

/-- The digits of a run with underscores between some of them. -/
def digits? (base : Nat) : List Char → Option (List Nat)
  | [] => none
  | [c] => (digit? base c).map ([·])
  | c :: '_' :: rest => do return (← digit? base c) :: (← digits? base rest)
  | c :: rest => do return (← digit? base c) :: (← digits? base rest)

/-- The number with the given digits. -/
def ofDigits (base : Nat) (ds : List Nat) : Nat :=
  ds.foldl (fun n d => n * base + d) 0

/-- Splits off a sign. -/
def signed (cs : List Char) : Bool × List Char :=
  match cs with
  | '-' :: rest => (true, rest)
  | '+' :: rest => (false, rest)
  | rest => (false, rest)

/-- A decimal run that starts with a zero only if it is the zero. -/
def decimal? (cs : List Char) : Option (List Nat) := do
  let ds ← digits? 10 cs
  match ds with
  | 0 :: _ :: _ => none
  | ds => some ds

def integer? (cs : List Char) : Option Int :=
  match cs with
  | '0' :: 'x' :: rest => (digits? 16 rest).map fun ds => ofDigits 16 ds
  | '0' :: 'o' :: rest => (digits? 8 rest).map fun ds => ofDigits 8 ds
  | '0' :: 'b' :: rest => (digits? 2 rest).map fun ds => ofDigits 2 ds
  | cs =>
    let (negative, cs) := signed cs
    (decimal? cs).map fun ds =>
      let n : Int := ofDigits 10 ds
      if negative then -n else n

/-- Splits at the first character that satisfies `p`, which is dropped. -/
def cut? (p : Char → Bool) (cs : List Char) : List Char × Option (List Char) :=
  match cs.dropWhile (!p ·) with
  | [] => (cs, none)
  | _ :: rest => (cs.takeWhile (!p ·), some rest)

/-- The exponent after its mark. -/
def exponent? (cs : List Char) : Option Int := do
  let (negative, cs) := signed cs
  let ds ← digits? 10 cs
  let n : Int := ofDigits 10 ds
  return if negative then -n else n

def float? (cs : List Char) : Option Decimal.Binary64 :=
  let (negative, cs) := signed cs
  match cs with
  | ['i', 'n', 'f'] => some (.infinite negative)
  | ['n', 'a', 'n'] => some .nan
  | cs => do
    let (body, exponent) := cut? (fun c => c = 'e' || c = 'E') cs
    let (whole, fraction) := cut? (· = '.') body
    if exponent.isNone && fraction.isNone then none
    else
      let whole ← decimal? whole
      let fraction ← match fraction with
        | some cs => digits? 10 cs
        | none => some []
      let exponent ← match exponent with
        | some cs => exponent? cs
        | none => some 0
      let x := Decimal.Binary64.ofDecimal negative (ofDigits 10 (whole ++ fraction))
        (exponent - fraction.length)
      if x.isInfinite then none else some x

end ServerWarden.Toml.Number
