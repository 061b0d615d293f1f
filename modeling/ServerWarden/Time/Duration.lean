/-
# Durations and instants

A duration is a whole number of nanoseconds, however long; an instant is the time since the clock
started.  Sleeps end on the millisecond grid: `Instant.wake` is the first grid point at or after
the moment asked for.  An instant holds its seconds in 63 bits, so `Instant.add?` refuses a sum
beyond that; `Instant.add` is the sum itself, for times that are known to be near.
-/

namespace ServerWarden

/-- A span of time, in nanoseconds. -/
structure Duration where
  nanos : Nat
  deriving DecidableEq, Repr, Inhabited

namespace Duration

def zero : Duration := ⟨0⟩

def ofSecs (s : Nat) : Duration := ⟨s * 1000000000⟩

def ofMillis (ms : Nat) : Duration := ⟨ms * 1000000⟩

/-- The whole seconds. -/
def secs (d : Duration) : Nat := d.nanos / 1000000000

/-- The nanoseconds beyond the whole seconds. -/
def subsecNanos (d : Duration) : Nat := d.nanos % 1000000000

/-- The whole milliseconds. -/
def millis (d : Duration) : Nat := d.nanos / 1000000

def isZero (d : Duration) : Bool := d.nanos == 0

def add (a b : Duration) : Duration := ⟨a.nanos + b.nanos⟩

instance : Add Duration := ⟨add⟩

instance : LT Duration := ⟨fun a b => a.nanos < b.nanos⟩

instance : LE Duration := ⟨fun a b => a.nanos ≤ b.nanos⟩

instance (a b : Duration) : Decidable (a < b) := inferInstanceAs (Decidable (a.nanos < b.nanos))

instance (a b : Duration) : Decidable (a ≤ b) := inferInstanceAs (Decidable (a.nanos ≤ b.nanos))

/-- `value / unit` in decimal, where `unit` is a power of ten with `places` zeros, without zeros
that say nothing. -/
def decimalText (value unit places : Nat) : String :=
  let fraction := Nat.toDigits 10 (value % unit)
  let padded := List.replicate (places - fraction.length) '0' ++ fraction
  let kept := (padded.reverse.dropWhile (· = '0')).reverse
  toString (value / unit) ++ (if kept.isEmpty then "" else "." ++ String.ofList kept)

/-- A duration in the largest of the units `s`, `ms`, `µs` and `ns` of which it holds one. -/
def text (d : Duration) : String :=
  if 1000000000 ≤ d.nanos then decimalText d.nanos 1000000000 9 ++ "s"
  else if 1000000 ≤ d.nanos then decimalText d.nanos 1000000 6 ++ "ms"
  else if 1000 ≤ d.nanos then decimalText d.nanos 1000 3 ++ "µs"
  else toString d.nanos ++ "ns"

end Duration

/-- A moment, as the nanoseconds since the clock started. -/
structure Instant where
  nanos : Nat
  deriving DecidableEq, Repr, Inhabited

namespace Instant

def start : Instant := ⟨0⟩

def ofMillis (ms : Nat) : Instant := ⟨ms * 1000000⟩

instance : LT Instant := ⟨fun a b => a.nanos < b.nanos⟩

instance : LE Instant := ⟨fun a b => a.nanos ≤ b.nanos⟩

instance (a b : Instant) : Decidable (a < b) := inferInstanceAs (Decidable (a.nanos < b.nanos))

instance (a b : Instant) : Decidable (a ≤ b) := inferInstanceAs (Decidable (a.nanos ≤ b.nanos))

/-- The moment `d` after `t`. -/
def add (t : Instant) (d : Duration) : Instant := ⟨t.nanos + d.nanos⟩

/-- The seconds an instant can hold. -/
def secondsLimit : Nat := Nat.pow 2 63

/-- The moment `d` after `t`, if an instant can hold it. -/
def add? (t : Instant) (d : Duration) : Option Instant :=
  let sum := t.add d
  if sum.nanos / 1000000000 < secondsLimit then some sum else none

theorem add?_ne_none {t : Instant} {d : Duration} :
    t.add? d ≠ none ↔ (t.add d).nanos / 1000000000 < secondsLimit := by simp [add?]

/-- The time from `earlier` to `t`, zero if `t` is not later. -/
def since (t earlier : Instant) : Duration := ⟨t.nanos - earlier.nanos⟩

/-- The whole milliseconds since the clock started. -/
def millis (t : Instant) : Nat := t.nanos / 1000000

/-- The first whole millisecond at or after `t`, when a sleep until `t` ends. -/
def wake (t : Instant) : Instant := ⟨(t.nanos + 999999) / 1000000 * 1000000⟩

/-- The earlier of two moments. -/
def earliest (a b : Instant) : Instant := if b < a then b else a

theorem le_wake (t : Instant) : t ≤ t.wake := by
  show t.nanos ≤ (t.nanos + 999999) / 1000000 * 1000000
  omega

theorem wake_ofMillis (ms : Nat) : (ofMillis ms).wake = ofMillis ms := by
  simp only [wake, ofMillis, Instant.mk.injEq]
  omega

end Instant
end ServerWarden
