import PathTemplate.Bytes
import PathTemplate.Wire.Cell
import PathTemplate.Wire.ModifiedUtf8

/-!
Writing cells and rows. Numbers are written highest byte first. A payload that does not fit its
length field is refused; what came before it in the same list or row stays written.
-/

namespace PathTemplate.Wire

open Numeric Calendar

def tagged (t : Tag) (payload : List UInt8) : List UInt8 := t.toByte :: payload

def endOfRecord : List UInt8 := tagged .endOfRecord []

def encodeBool (b : Bool) : List UInt8 := tagged .boolean [if b then 1 else 0]

def encodeByte (n : Int8) : List UInt8 := tagged .byte [n.toUInt8]

def encodeShort (n : Int16) : List UInt8 := tagged .short (Bytes.bigEndian 2 n.toUInt16.toNat)

def encodeInt (n : Int32) : List UInt8 := tagged .integer (Bytes.bigEndian 4 n.toUInt32.toNat)

def encodeLong (n : Int64) : List UInt8 := tagged .long (Bytes.bigEndian 8 n.toUInt64.toNat)

def encodeFloat (x : Binary32) : List UInt8 := tagged .float (Bytes.bigEndian 4 x.bits.toNat)

def encodeDouble (x : Binary64) : List UInt8 := tagged .double (Bytes.bigEndian 8 x.bits.toNat)

def millisBytes (ms : Int) : List UInt8 := Bytes.bigEndian 8 (Int64.ofInt ms).toUInt64.toNat

def encodeDateTime (t : Instant) : List UInt8 := tagged .dateTime (millisBytes t.millis)

def encodeDate (d : Date) : List UInt8 := tagged .date (millisBytes (d.day * millisPerDay))

def encodeRaw (bytes : List UInt8) : Except EncodeError (List UInt8) :=
  if bytes.length ≤ maxCount then
    .ok (tagged .raw (Bytes.bigEndian 4 bytes.length ++ bytes))
  else .error (.rawTooLong bytes.length)

def stringPayload (cs : List Char) (length : Nat) : List UInt8 :=
  tagged .string (Bytes.bigEndian 2 length ++ ModifiedUtf8.encode cs)

def encodeString (s : String) : Except EncodeError (List UInt8) :=
  let length := ModifiedUtf8.encodedLength s.toList
  if length ≤ maxStringLength then .ok (stringPayload s.toList length)
  else .error (.stringTooLong length)

/-- The longest run of characters from the start whose encoded form takes at most `room` bytes,
put behind the finished `out`, which stands last character first. -/
def fittingOnto (out : List Char) (room : Nat) : List Char → List Char
  | [] => out.reverse
  | c :: rest =>
    let width := ModifiedUtf8.charWidth c
    if width ≤ room then fittingOnto (c :: out) (room - width) rest else out.reverse

def fitting (cs : List Char) : List Char := fittingOnto [] maxStringLength cs

def encodeStringCut (s : String) : List UInt8 × Bool :=
  let length := ModifiedUtf8.encodedLength s.toList
  if length ≤ maxStringLength then (stringPayload s.toList length, false)
  else
    let cs := fitting s.toList
    (stringPayload cs (ModifiedUtf8.encodedLength cs), true)

/-- The head of a list; as many cells have to follow. -/
def encodeListHead (count : Nat) : Except EncodeError (List UInt8) :=
  if count ≤ maxCount then .ok (tagged .list (Bytes.bigEndian 4 count))
  else .error (.listTooLong count)

/-- Bytes that were written, and why writing stopped if it did. -/
structure Written where
  bytes : List UInt8
  error : Option EncodeError := none

namespace Written

def ofExcept : Except EncodeError (List UInt8) → Written
  | .ok bytes => ⟨bytes, none⟩
  | .error e => ⟨[], some e⟩

def andThen (w : Written) (next : Unit → Written) : Written :=
  match w.error with
  | some _ => w
  | none =>
    let w' := next ()
    ⟨w.bytes ++ w'.bytes, w'.error⟩

def toExcept (w : Written) : Except EncodeError (List UInt8) :=
  match w.error with
  | some e => .error e
  | none => .ok w.bytes

end Written

mutual

def Cell.write : Cell → Written
  | .raw bytes => .ofExcept (encodeRaw bytes)
  | .dateTime t => ⟨encodeDateTime t, none⟩
  | .date d => ⟨encodeDate d, none⟩
  | .bool b => ⟨encodeBool b, none⟩
  | .byte n => ⟨encodeByte n, none⟩
  | .short n => ⟨encodeShort n, none⟩
  | .int n => ⟨encodeInt n, none⟩
  | .long n => ⟨encodeLong n, none⟩
  | .float x => ⟨encodeFloat x, none⟩
  | .double x => ⟨encodeDouble x, none⟩
  | .string s => .ofExcept (encodeString s)
  | .list items => (Written.ofExcept (encodeListHead items.length)).andThen fun _ => writeAll items

def writeAll : List Cell → Written
  | [] => ⟨[], none⟩
  | c :: cs => c.write.andThen fun _ => writeAll cs

end

def writeRow (row : Row) : Written := (writeAll row).andThen fun _ => ⟨endOfRecord, none⟩

end PathTemplate.Wire
