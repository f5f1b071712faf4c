/-!
Calendar dates. A date is the number of its day counted from 1970-01-01; year, month and day of the
proleptic Gregorian calendar are read off that number. Years before 1 are counted astronomically.
-/

namespace PathTemplate.Calendar

structure Date where
  day : Int
  deriving DecidableEq, Repr

structure Civil where
  year : Int
  month : Nat
  day : Nat
  deriving DecidableEq, Repr

namespace Date

/-- Years are counted from March, so that the leap day ends its year, in cycles of 400 years. -/
def ofCivil (c : Civil) : Date :=
  let y := if c.month ≤ 2 then c.year - 1 else c.year
  let cycle := y / 400
  let yearOfCycle := y % 400
  let month : Int := if 2 < c.month then (c.month : Int) - 3 else c.month + 9
  let dayOfYear := (153 * month + 2) / 5 + c.day - 1
  ⟨cycle * 146097 + yearOfCycle * 365 + yearOfCycle / 4 - yearOfCycle / 100 + dayOfYear - 719468⟩

def civil (d : Date) : Civil :=
  let z := d.day + 719468
  let cycle := z / 146097
  let dayOfCycle := z % 146097
  let yearOfCycle :=
    (dayOfCycle - dayOfCycle / 1460 + dayOfCycle / 36524 - dayOfCycle / 146096) / 365
  let dayOfYear := dayOfCycle - (365 * yearOfCycle + yearOfCycle / 4 - yearOfCycle / 100)
  let month := (5 * dayOfYear + 2) / 153
  let day := dayOfYear - (153 * month + 2) / 5 + 1
  let month := if month < 10 then month + 3 else month - 9
  let year := yearOfCycle + cycle * 400
  ⟨if month ≤ 2 then year + 1 else year, month.toNat, day.toNat⟩

def year (d : Date) : Int := d.civil.year

def first : Date := ofCivil ⟨-262143, 1, 1⟩

def last : Date := ofCivil ⟨262142, 12, 31⟩

def ofDay? (n : Int) : Option Date :=
  if first.day ≤ n ∧ n ≤ last.day then some ⟨n⟩ else none

def ordinal (d : Date) : Nat := (d.day - (ofCivil ⟨d.year, 1, 1⟩).day + 1).toNat

def daysFromSunday (d : Date) : Nat := ((d.day + 4) % 7).toNat

def daysFromMonday (d : Date) : Nat := ((d.day + 3) % 7).toNat

/-- The year that holds the Thursday of the date's week, which starts on Monday. -/
def weekYear (d : Date) : Int := (Date.mk (d.day - d.daysFromMonday + 3)).year

def week (d : Date) : Nat :=
  ((Date.mk (d.day - d.daysFromMonday + 3)).ordinal - 1) / 7 + 1

end Date

/-- `n` in decimal with leading zeros up to `width` characters, a sign among them. -/
def zeroPadded (width : Nat) (sign : String) (n : Nat) : String :=
  let digits := toString n
  sign ++ String.ofList (List.replicate (width - (sign.length + digits.length)) '0') ++ digits

def spacePadded (width : Nat) (text : String) : String :=
  String.ofList (List.replicate (width - text.length) ' ') ++ text

def signOf (always : Bool) (n : Int) : String :=
  if n < 0 then "-" else if always then "+" else ""

/-- Four digits; a year outside 0 to 9999 carries its sign. -/
def yearText (y : Int) : String :=
  if 0 ≤ y ∧ y ≤ 9999 then zeroPadded 4 "" y.toNat else zeroPadded 5 (signOf true y) y.natAbs

def Date.text (d : Date) : String :=
  let c := d.civil
  yearText c.year ++ "-" ++ zeroPadded 2 "" c.month ++ "-" ++ zeroPadded 2 "" c.day

end PathTemplate.Calendar
