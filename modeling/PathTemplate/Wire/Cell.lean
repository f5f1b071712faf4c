import PathTemplate.Calendar.Instant
import PathTemplate.Numeric.Binary
import PathTemplate.Wire.Tag

namespace PathTemplate.Wire

open Numeric Calendar

inductive Cell where
  | raw (bytes : List UInt8)
  | dateTime (t : Instant)
  | date (d : Date)
  | bool (b : Bool)
  | byte (n : Int8)
  | short (n : Int16)
  | int (n : Int32)
  | long (n : Int64)
  | float (x : Binary32)
  | double (x : Binary64)
  | string (s : String)
  | list (items : List Cell)
  deriving Inhabited

abbrev Row := List Cell

def Cell.tag : Cell → Tag
  | .raw _ => .raw
  | .dateTime _ => .dateTime
  | .date _ => .date
  | .bool _ => .boolean
  | .byte _ => .byte
  | .short _ => .short
  | .int _ => .integer
  | .long _ => .long
  | .float _ => .float
  | .double _ => .double
  | .string _ => .string
  | .list _ => .list

def maxStringLength : Nat := 65535

def maxCount : Nat := 2147483647

/-- Deepest nesting of lists that is read. -/
def maxListDepth : Nat := 64

def millisPerDay : Int := 86400000

inductive EncodeError where
  | stringTooLong (length : Nat)
  | rawTooLong (length : Nat)
  | listTooLong (length : Nat)
  deriving DecidableEq, Repr

def EncodeError.message : EncodeError → String
  | .stringTooLong n =>
    "string of " ++ toString n ++ " encoded bytes exceeds the " ++ toString maxStringLength ++
      "-byte limit"
  | .rawTooLong n => "raw payload of " ++ toString n ++ " bytes exceeds the 4-byte length prefix"
  | .listTooLong n => "list of " ++ toString n ++ " elements exceeds the 4-byte count prefix"

end PathTemplate.Wire
