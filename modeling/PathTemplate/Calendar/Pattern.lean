import PathTemplate.Calendar.Instant

/-!
Patterns for dates and times. A percent sign starts a directive, everything else stands for itself.
A pattern is read into pieces once; a piece that needs what the value lacks, such as the hour of a
date, makes the whole text empty.
-/

namespace PathTemplate.Calendar

namespace Pattern

inductive Padding where
  | none
  | zero
  | space
  deriving DecidableEq, Repr

inductive Quantity where
  | year | century | yearOfCentury
  | weekYear | weekYearOfCentury
  | quarter | month | day | ordinal
  | weekFromSunday | weekFromMonday | week
  | daysFromSunday | weekday
  | hour | hour12 | minute | second | nanosecond
  | timestamp
  deriving DecidableEq, Repr

inductive Wording where
  | monthName (long : Bool)
  | weekdayName (long : Bool)
  | halfDay (capital : Bool)
  | fraction
  | fractionDigits (point : Bool) (digits : Nat)
  | zoneName
  | zoneOffset (text : String)
  | looseOffset
  | full
  deriving DecidableEq, Repr

inductive Piece where
  | literal (text : List Char)
  | number (q : Quantity) (pad : Padding)
  | wording (w : Wording)
  deriving DecidableEq, Repr

def clock : List Piece :=
  [.number .hour .zero, .literal [':'], .number .minute .zero, .literal [':'],
    .number .second .zero]

def shortDate : List Piece :=
  [.number .month .zero, .literal ['/'], .number .day .zero, .literal ['/'],
    .number .yearOfCentury .zero]

def letter : Char → Option (List Piece)
  | 'A' => some [.wording (.weekdayName true)]
  | 'B' => some [.wording (.monthName true)]
  | 'C' => some [.number .century .zero]
  | 'D' => some shortDate
  | 'F' => some [.number .year .zero, .literal ['-'], .number .month .zero, .literal ['-'],
      .number .day .zero]
  | 'G' => some [.number .weekYear .zero]
  | 'H' => some [.number .hour .zero]
  | 'I' => some [.number .hour12 .zero]
  | 'M' => some [.number .minute .zero]
  | 'P' => some [.wording (.halfDay false)]
  | 'R' => some [.number .hour .zero, .literal [':'], .number .minute .zero]
  | 'S' => some [.number .second .zero]
  | 'T' => some clock
  | 'U' => some [.number .weekFromSunday .zero]
  | 'V' => some [.number .week .zero]
  | 'W' => some [.number .weekFromMonday .zero]
  | 'X' => some clock
  | 'Y' => some [.number .year .zero]
  | 'Z' => some [.wording .zoneName]
  | 'a' => some [.wording (.weekdayName false)]
  | 'b' => some [.wording (.monthName false)]
  | 'c' => some ([.wording (.weekdayName false), .literal [' '], .wording (.monthName false),
      .literal [' '], .number .day .space, .literal [' ']] ++ clock ++
      [.literal [' '], .number .year .zero])
  | 'd' => some [.number .day .zero]
  | 'e' => some [.number .day .space]
  | 'f' => some [.number .nanosecond .zero]
  | 'g' => some [.number .weekYearOfCentury .zero]
  | 'h' => some [.wording (.monthName false)]
  | 'j' => some [.number .ordinal .zero]
  | 'k' => some [.number .hour .space]
  | 'l' => some [.number .hour12 .space]
  | 'm' => some [.number .month .zero]
  | 'n' => some [.literal ['\n']]
  | 'p' => some [.wording (.halfDay true)]
  | 'q' => some [.number .quarter .none]
  | 'r' => some [.number .hour12 .zero, .literal [':'], .number .minute .zero, .literal [':'],
      .number .second .zero, .literal [' '], .wording (.halfDay true)]
  | 's' => some [.number .timestamp .none]
  | 't' => some [.literal ['\t']]
  | 'u' => some [.number .weekday .none]
  | 'v' => some [.number .day .space, .literal ['-'], .wording (.monthName false), .literal ['-'],
      .number .year .zero]
  | 'w' => some [.number .daysFromSunday .none]
  | 'x' => some shortDate
  | 'y' => some [.number .yearOfCentury .zero]
  | 'z' => some [.wording (.zoneOffset "+0000")]
  | '+' => some [.wording .full]
  | '%' => some [.literal ['%']]
  | _ => none

/-- What the directive at the start of the text stands for, its percent sign and its flag already
taken, and the text after it. -/
def directive : List Char → Option (List Piece × List Char)
  | ':' :: ':' :: ':' :: 'z' :: rest => some ([.wording (.zoneOffset "+00")], rest)
  | ':' :: ':' :: 'z' :: rest => some ([.wording (.zoneOffset "+00:00:00")], rest)
  | ':' :: 'z' :: rest => some ([.wording (.zoneOffset "+00:00")], rest)
  | '.' :: '3' :: 'f' :: rest => some ([.wording (.fractionDigits true 3)], rest)
  | '.' :: '6' :: 'f' :: rest => some ([.wording (.fractionDigits true 6)], rest)
  | '.' :: '9' :: 'f' :: rest => some ([.wording (.fractionDigits true 9)], rest)
  | '.' :: 'f' :: rest => some ([.wording .fraction], rest)
  | '3' :: 'f' :: rest => some ([.wording (.fractionDigits false 3)], rest)
  | '6' :: 'f' :: rest => some ([.wording (.fractionDigits false 6)], rest)
  | '9' :: 'f' :: rest => some ([.wording (.fractionDigits false 9)], rest)
  | c :: rest => (letter c).map (·, rest)
  | [] => none

/-- A padding flag fits a directive that is a single number and nothing else. -/
def repad (pad : Padding) : List Piece → Option (List Piece)
  | [.number q _] => some [.number q pad]
  | _ => none

def repadded (pad : Padding) (rest : List Char) : Option (List Piece × List Char) := do
  let (pieces, rest) ← directive rest
  let pieces ← repad pad pieces
  pure (pieces, rest)

def flagged : List Char → Option (List Piece × List Char)
  | '-' :: rest => repadded .none rest
  | '0' :: rest => repadded .zero rest
  | '_' :: rest => repadded .space rest
  | '#' :: 'z' :: rest => some ([.wording .looseOffset], rest)
  | '#' :: _ => none
  | rest => directive rest

def read : (fuel : Nat) → List Char → Option (List Piece)
  | 0, _ => some []
  | _ + 1, [] => some []
  | n + 1, '%' :: rest => do
    let (pieces, rest) ← flagged rest
    let more ← read n rest
    pure (pieces ++ more)
  | n + 1, c :: rest => do
    let more ← read n rest
    pure (.literal [c] :: more)

end Pattern

/-- The pieces of a pattern; none when a directive is unknown or cut short. -/
def Pattern.ofString? (s : String) : Option (List Pattern.Piece) :=
  Pattern.read (s.length + 1) s.toList

structure Moment where
  date : Date
  time : Option Instant

def Moment.ofDate (d : Date) : Moment := ⟨d, none⟩

def Moment.ofInstant (t : Instant) : Moment := ⟨t.date, some t⟩

namespace Pattern

def monthNames : List String :=
  ["January", "February", "March", "April", "May", "June", "July", "August", "September",
    "October", "November", "December"]

def weekdayNames : List String :=
  ["Sunday", "Monday", "Tuesday", "Wednesday", "Thursday", "Friday", "Saturday"]

def nameAt (names : List String) (long : Bool) (i : Nat) : String :=
  let name := names.getD i ""
  if long then name else String.ofList (name.toList.take 3)

def signedPadded (pad : Padding) (width : Nat) (always : Bool) (n : Int) : String :=
  match pad with
  | .none => signOf always n ++ toString n.natAbs
  | .zero => zeroPadded width (signOf always n) n.natAbs
  | .space => spacePadded width (signOf always n ++ toString n.natAbs)

/-- Two places; a tens figure above nine goes on past the digits. -/
def twoPlaces (pad : Padding) (n : Nat) : String :=
  let ones := Char.ofNat (48 + n % 10)
  match n / 10, pad with
  | 0, .none => String.ofList [ones]
  | 0, .space => String.ofList [' ', ones]
  | tens, _ => String.ofList [Char.ofNat (48 + tens), ones]

def onePlace (n : Nat) : String := String.ofList [Char.ofNat (48 + n)]

def yearPlaces (pad : Padding) (y : Int) : String :=
  if 0 ≤ y ∧ y < 10000 then signedPadded pad 4 false y else signedPadded pad 5 true y

def hourOfHalfDay (h : Nat) : Nat := if h % 12 = 0 then 12 else h % 12

def weeksFrom (d : Date) (since : Nat) : Nat := (d.ordinal + 6 - since) / 7

def quantityText (m : Moment) (q : Quantity) (pad : Padding) : Option String :=
  let d := m.date
  let two (n : Nat) : Option String := some (twoPlaces pad n)
  match q with
  | .year => some (yearPlaces pad d.year)
  | .century => two (d.year / 100 % 256).toNat
  | .yearOfCentury => two (d.year % 100).toNat
  | .weekYear => some (yearPlaces pad d.weekYear)
  | .weekYearOfCentury => two (d.weekYear % 100).toNat
  | .quarter => some (onePlace ((d.civil.month - 1) / 3 + 1))
  | .month => two d.civil.month
  | .day => two d.civil.day
  | .ordinal => some (signedPadded pad 3 false d.ordinal)
  | .weekFromSunday => two (weeksFrom d d.daysFromSunday)
  | .weekFromMonday => two (weeksFrom d d.daysFromMonday)
  | .week => two d.week
  | .daysFromSunday => some (onePlace d.daysFromSunday)
  | .weekday => some (onePlace (d.daysFromMonday + 1))
  | .hour => m.time.map fun t => twoPlaces pad t.hour
  | .hour12 => m.time.map fun t => twoPlaces pad (hourOfHalfDay t.hour)
  | .minute => m.time.map fun t => twoPlaces pad t.minute
  | .second => m.time.map fun t => twoPlaces pad t.second
  | .nanosecond => m.time.map fun t => signedPadded pad 9 false t.subsecond
  | .timestamp => m.time.map fun t => signedPadded pad 9 false t.seconds

def wordingText (m : Moment) : Wording → Option String
  | .monthName long => some (nameAt monthNames long (m.date.civil.month - 1))
  | .weekdayName long => some (nameAt weekdayNames long m.date.daysFromSunday)
  | .halfDay capital => m.time.map fun t =>
      if t.hour < 12 then (if capital then "AM" else "am")
      else if capital then "PM" else "pm"
  | .fraction => m.time.map (·.fractionText)
  | .fractionDigits point digits => m.time.map fun t =>
      (if point then "." else "") ++ zeroPadded digits "" (t.subsecond / Nat.pow 10 (9 - digits))
  | .zoneName => m.time.map fun _ => "UTC"
  | .zoneOffset text => m.time.map fun _ => text
  | .looseOffset => none
  | .full => m.time.map fun t =>
      t.date.text ++ "T" ++ t.clockText ++ t.fractionText ++ "+00:00"

def pieceText (m : Moment) : Piece → Option String
  | .literal cs => some (String.ofList cs)
  | .number q pad => quantityText m q pad
  | .wording w => wordingText m w

/-- The text of all pieces, or nothing when one of them has none. -/
def format (pieces : List Piece) (m : Moment) : String :=
  match pieces.mapM (pieceText m) with
  | some texts => String.join texts
  | none => ""

end Pattern

end PathTemplate.Calendar
