import PathTemplate.Calendar.Date

/-!
Points in time: whole seconds since 1970-01-01T00:00:00 UTC, rounded down, and the nanoseconds on
top of them. A leap second has no number of its own: it is a second billion of nanoseconds on top of
the second before it.
-/

namespace PathTemplate.Calendar

structure Instant where
  seconds : Int
  nanos : Nat
  deriving DecidableEq, Repr

namespace Instant

def date (t : Instant) : Date := ⟨t.seconds / 86400⟩

def secondOfDay (t : Instant) : Nat := (t.seconds % 86400).toNat

def hour (t : Instant) : Nat := t.secondOfDay / 3600

def minute (t : Instant) : Nat := t.secondOfDay / 60 % 60

def isLeap (t : Instant) : Bool := 1000000000 ≤ t.nanos

def second (t : Instant) : Nat := t.secondOfDay % 60 + if t.isLeap then 1 else 0

def subsecond (t : Instant) : Nat := t.nanos % 1000000000

def millis (t : Instant) : Int := t.seconds * 1000 + (t.nanos / 1000000 : Nat)

/-- The instant of a millisecond, unless its date is out of range. -/
def ofMillis? (ms : Int) : Option Instant :=
  (Date.ofDay? (ms / 86400000)).map fun _ => ⟨ms / 1000, (ms % 1000).toNat * 1000000⟩

def clockText (t : Instant) : String :=
  zeroPadded 2 "" t.hour ++ ":" ++ zeroPadded 2 "" t.minute ++ ":" ++ zeroPadded 2 "" t.second

/-- Nothing for whole seconds, else a point and as many groups of three digits as are needed. -/
def fractionText (t : Instant) : String :=
  if t.subsecond = 0 then ""
  else if t.subsecond % 1000000 = 0 then "." ++ zeroPadded 3 "" (t.subsecond / 1000000)
  else if t.subsecond % 1000 = 0 then "." ++ zeroPadded 6 "" (t.subsecond / 1000)
  else "." ++ zeroPadded 9 "" t.subsecond

def text (t : Instant) : String :=
  t.date.text ++ "T" ++ t.clockText ++ "." ++ zeroPadded 3 "" (t.subsecond / 1000000) ++ "Z"

def longText (t : Instant) : String :=
  t.date.text ++ " " ++ t.clockText ++ t.fractionText ++ " UTC"

example : (Instant.mk 1483228799 1500000000).text = "2016-12-31T23:59:60.500Z" := by
  decide +kernel

end Instant

end PathTemplate.Calendar
