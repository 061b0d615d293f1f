/-
# Dates and times

A date, a time of day, or a date with a time and perhaps an offset.  The seconds may be left out,
and their fraction keeps nine digits.  Months have their true number of days, and a leap second is
allowed.  `normal?` answers the one normal spelling: `T` between date and time, `Z` for no offset,
no zeros at the end of a fraction.
-/

namespace ServerWarden.Toml.Datetime

/-- The value of a run of decimal digits. -/
def number (ds : List Char) : Nat :=
  ds.foldl (fun n c => n * 10 + (c.toNat - '0'.toNat)) 0

/-- Exactly `n` digits from the front. -/
def digits? (n : Nat) (cs : List Char) : Option (List Char × List Char) :=
  let ds := cs.take n
  if ds.length = n ∧ ds.all Char.isDigit then some (ds, cs.drop n) else none

def isLeap (year : Nat) : Bool :=
  year % 4 == 0 && (year % 100 != 0 || year % 400 == 0)

def daysIn (year month : Nat) : Nat :=
  match month with
  | 2 => if isLeap year then 29 else 28
  | 4 | 6 | 9 | 11 => 30
  | _ => 31

/-- A date from the front, as it is written. -/
def date? (cs : List Char) : Option (List Char × List Char) := do
  let (y, cs) ← digits? 4 cs
  let (m, cs) ← cs.head?.bind fun c => if c = '-' then digits? 2 cs.tail else none
  let (d, cs) ← cs.head?.bind fun c => if c = '-' then digits? 2 cs.tail else none
  let month := number m
  let day := number d
  if 1 ≤ month ∧ month ≤ 12 ∧ 1 ≤ day ∧ day ≤ daysIn (number y) month then
    return (y ++ '-' :: m ++ '-' :: d, cs)
  else none

/-- Seconds and their fraction, if a colon comes next. -/
def seconds? (cs : List Char) : Option (List Char × List Char) :=
  match cs with
  | ':' :: cs => do
    let (s, cs) ← digits? 2 cs
    if 60 < number s then none
    else
      match cs with
      | '.' :: cs =>
        let fraction := cs.takeWhile Char.isDigit
        if fraction.isEmpty then none
        else
          let kept := ((fraction.take 9).reverse.dropWhile (· = '0')).reverse
          return (':' :: s ++ (if kept.isEmpty then [] else '.' :: kept),
            cs.dropWhile Char.isDigit)
      | cs => return (':' :: s, cs)
  | cs => some ([], cs)

/-- A time of day from the front. -/
def time? (cs : List Char) : Option (List Char × List Char) := do
  let (h, cs) ← digits? 2 cs
  let (m, cs) ← cs.head?.bind fun c => if c = ':' then digits? 2 cs.tail else none
  if 23 < number h ∨ 59 < number m then none
  else
    let (s, cs) ← seconds? cs
    return (h ++ ':' :: m ++ s, cs)

/-- An offset from universal time, which may be missing. -/
def offset? (cs : List Char) : Option (List Char) :=
  match cs with
  | [] => some []
  | ['Z'] | ['z'] => some ['Z']
  | sign :: cs =>
    if sign = '+' ∨ sign = '-' then do
      let (h, cs) ← digits? 2 cs
      let (m, cs) ← cs.head?.bind fun c => if c = ':' then digits? 2 cs.tail else none
      if 23 < number h ∨ 59 < number m ∨ !cs.isEmpty then none
      else return sign :: h ++ ':' :: m
    else none

/-- The normal spelling of a date, a time or both. -/
def normal? (cs : List Char) : Option String :=
  match date? cs with
  | some (date, []) => some (String.ofList date)
  | some (date, sep :: rest) =>
    if sep = 'T' ∨ sep = 't' ∨ sep = ' ' then do
      let (time, rest) ← time? rest
      let offset ← offset? rest
      return String.ofList (date ++ 'T' :: time ++ offset)
    else none
  | none =>
    match time? cs with
    | some (time, []) => some (String.ofList time)
    | _ => none

end ServerWarden.Toml.Datetime
