/-
# Durations as people write them

A phrase is one or more amounts, each with its unit: `1h 30m`, `90s`, `1.5 s`.  Blanks may stand
before an amount, inside it and before its unit, and must not stand inside a unit.  `0` alone needs
no unit.  Amounts are 64-bit, as is the sum in seconds, and a fraction has to come out in whole
seconds for an hour and longer units and in whole nanoseconds for shorter ones.
-/
import ServerWarden.Text.Blank
import ServerWarden.Time.Duration

namespace ServerWarden.Duration

/-- The largest amount, and the largest number of seconds of a duration. -/
def amountLimit : Nat := Nat.pow 2 64

/-- A number below the limit. -/
def bounded? (n : Nat) : Option Nat :=
  if n < amountLimit then some n else none

/-- A unit of time: how many of its grains it holds, and how many nanoseconds a grain has.  Long
units are counted in seconds, short ones in nanoseconds. -/
structure TimeUnit where
  grains : Nat
  grainNanos : Nat

/-- The units by name. -/
def TimeUnit.ofName? (name : String) : Option TimeUnit :=
  let seconds (n : Nat) : Option TimeUnit := some ⟨n, 1000000000⟩
  match name with
  | "nanos" | "nsec" | "ns" => some ⟨1, 1⟩
  | "usec" | "us" | "µs" => some ⟨1000, 1⟩
  | "millis" | "msec" | "ms" => some ⟨1000000, 1⟩
  | "seconds" | "second" | "secs" | "sec" | "s" => seconds 1
  | "minutes" | "minute" | "min" | "mins" | "m" => seconds 60
  | "hours" | "hour" | "hrs" | "hr" | "h" => seconds 3600
  | "days" | "day" | "d" => seconds 86400
  | "weeks" | "week" | "wks" | "wk" | "w" => seconds 604800
  | "months" | "month" | "M" => seconds 2630016
  | "years" | "year" | "yrs" | "yr" | "y" => seconds 31557600
  | _ => none

/-- A unit with the fraction of one: seconds and minutes have fractions in nanoseconds, longer
units in seconds, and a nanosecond has none. -/
def TimeUnit.fractionGrain (u : TimeUnit) : Option TimeUnit :=
  if u.grainNanos = 1 then (if u.grains = 1 then none else some u)
  else if u.grains ≤ 60 then some ⟨u.grains * 1000000000, 1⟩
  else some u

/-- A fraction of one, as written after the point. -/
structure Fraction where
  numerator : Nat
  denominator : Nat

/-- Adds `count` grains to a sum, if the seconds stay within the limit. -/
def addGrains? (sum : Duration) (count grainNanos : Nat) : Option Duration := do
  let count ← bounded? count
  if grainNanos = 1 then
    let _ ← bounded? (sum.subsecNanos + count)
  let total : Duration := ⟨sum.nanos + count * grainNanos⟩
  let _ ← bounded? total.secs
  return total

/-- The fraction of `u`, counted in grains, if it comes out even. -/
def TimeUnit.partOf? (u : TimeUnit) (f : Fraction) : Option (Nat × Nat) := do
  let g ← u.fractionGrain
  let scaled ← bounded? (f.numerator * g.grains)
  if scaled % f.denominator = 0 then some (scaled / f.denominator, g.grainNanos) else none

/-- Adds an amount of a unit to a sum. -/
def addAmount? (sum : Duration) (amount : Nat) (fraction : Option Fraction) (unitName : String) :
    Option Duration := do
  let u ← TimeUnit.ofName? unitName
  let sum ← addGrains? sum (amount * u.grains) u.grainNanos
  match fraction with
  | none => return sum
  | some f =>
    let (count, grainNanos) ← u.partOf? f
    addGrains? sum count grainNanos

/-- The letters a unit is spelled with. -/
def isUnitLetter (c : Char) : Bool := c.isAlpha || c == 'µ'

/-- What a phrase reader is inside of. -/
inductive PhrasePlace where
  /-- Before an amount. -/
  | gap
  /-- In the digits of an amount. -/
  | amount (value : Nat)
  /-- In the digits after the point. -/
  | fraction (amount : Nat) (fraction : Fraction)
  /-- In a unit, whose letters are held in reverse. -/
  | name (amount : Nat) (fraction : Option Fraction) (letters : List Char)

/-- The value of a decimal digit. -/
def digit? (c : Char) : Option Nat :=
  if c.isDigit then some (c.toNat - '0'.toNat) else none

/-- One character further in a phrase. -/
def PhrasePlace.step? (sum : Duration) (c : Char) : PhrasePlace → Option (Duration × PhrasePlace)
  | .gap =>
    match digit? c with
    | some d => some (sum, .amount d)
    | none => if Text.isBlank c then some (sum, .gap) else none
  | .amount n =>
    match digit? c with
    | some d => do
      let n ← bounded? (n * 10 + d)
      return (sum, .amount n)
    | none =>
      if Text.isBlank c then some (sum, .amount n)
      else if isUnitLetter c then some (sum, .name n none [c])
      else if c = '.' then some (sum, .fraction n ⟨0, 1⟩)
      else none
  | .fraction n f =>
    match digit? c with
    | some d => do
      let numerator ← bounded? (f.numerator * 10 + d)
      let denominator ← bounded? (f.denominator * 10)
      return (sum, .fraction n ⟨numerator, denominator⟩)
    | none =>
      if Text.isBlank c then some (sum, .fraction n f)
      else if isUnitLetter c ∧ f.denominator ≠ 1 then some (sum, .name n (some f) [c])
      else none
  | .name n f letters =>
    let finish := addAmount? sum n f (String.ofList letters.reverse)
    match digit? c with
    | some d => do return (← finish, .amount d)
    | none =>
      if Text.isBlank c then do return (← finish, .gap)
      else if isUnitLetter c then some (sum, .name n f (c :: letters))
      else none

/-- Reads a phrase from a place in it to its end, which must follow a unit. -/
def readPhrase? (sum : Duration) (place : PhrasePlace) : List Char → Option Duration
  | [] =>
    match place with
    | .gap => some sum
    | .name n f letters => addAmount? sum n f (String.ofList letters.reverse)
    | _ => none
  | c :: rest =>
    match place.step? sum c with
    | some (sum, place) => readPhrase? sum place rest
    | none => none

/-- The duration that a phrase names. -/
def ofPhrase? (s : String) : Option Duration :=
  if s = "0" then some zero
  else if (Text.trim s).isEmpty then none
  else readPhrase? zero .gap s.toList

end ServerWarden.Duration
