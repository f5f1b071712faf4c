namespace PathTemplate.Wire

inductive Tag where
  | endOfRecord
  | raw
  | dateTime
  | date
  | boolean
  | byte
  | short
  | integer
  | long
  | float
  | double
  | string
  | list
  deriving DecidableEq, Repr

namespace Tag

def toByte : Tag → UInt8
  | .endOfRecord => 0
  | .raw => 1
  | .dateTime => 2
  | .date => 3
  | .boolean => 4
  | .byte => 5
  | .short => 6
  | .integer => 7
  | .long => 8
  | .float => 9
  | .double => 10
  | .string => 11
  | .list => 12

def ofByte? (b : UInt8) : Option Tag :=
  match b.toNat with
  | 0 => some .endOfRecord
  | 1 => some .raw
  | 2 => some .dateTime
  | 3 => some .date
  | 4 => some .boolean
  | 5 => some .byte
  | 6 => some .short
  | 7 => some .integer
  | 8 => some .long
  | 9 => some .float
  | 10 => some .double
  | 11 => some .string
  | 12 => some .list
  | _ => none

/-- Bytes of the payload, for tags that fix their number. -/
def width? : Tag → Option Nat
  | .endOfRecord => some 0
  | .boolean | .byte => some 1
  | .short => some 2
  | .integer | .float => some 4
  | .long | .double | .dateTime | .date => some 8
  | .raw | .string | .list => none

def name : Tag → String
  | .endOfRecord => "end-of-record"
  | .raw => "raw"
  | .dateTime => "datetime"
  | .date => "date"
  | .boolean => "boolean"
  | .byte => "byte"
  | .short => "short"
  | .integer => "integer"
  | .long => "long"
  | .float => "float"
  | .double => "double"
  | .string => "string"
  | .list => "list"

theorem ofByte?_toByte (t : Tag) : ofByte? t.toByte = some t := by cases t <;> rfl

end Tag

end PathTemplate.Wire
