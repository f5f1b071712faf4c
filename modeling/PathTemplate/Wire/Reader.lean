import PathTemplate.Bytes
import PathTemplate.Text.Hex
import PathTemplate.Wire.Cell
import PathTemplate.Wire.ModifiedUtf8

/-!
Reading cells and rows from a buffer of unknown origin. The reader moves forward only; an error
names the byte offset it is about, and the reader stays where it stopped.
-/

namespace PathTemplate.Wire

open Numeric Calendar

inductive DecodeError where
  | unexpectedEof (pos needed : Nat)
  | unknownTag (byte : UInt8) (pos : Nat)
  | malformedString (pos : Nat)
  | dateTimeOutOfRange (pos : Nat) (millis : Int64)
  | endOfRecordInList (pos : Nat)
  | negativeLength (pos : Nat) (length : Int32)
  | nestingTooDeep (pos : Nat)
  | unterminatedRecord (pos : Nat)
  deriving DecidableEq, Repr

def DecodeError.message : DecodeError → String
  | .unexpectedEof pos needed =>
    "unexpected end of input at byte " ++ toString pos ++ ": " ++ toString needed ++
      " more byte(s) needed"
  | .unknownTag b pos =>
    "unknown wire tag 0x" ++ String.ofList (Text.hexByte b) ++ " at byte " ++ toString pos
  | .malformedString pos => "malformed modified UTF-8 string at byte " ++ toString pos
  | .dateTimeOutOfRange pos ms =>
    "datetime of " ++ toString ms.toInt ++ " ms at byte " ++ toString pos ++ " is out of range"
  | .endOfRecordInList pos => "end-of-record marker inside a list at byte " ++ toString pos
  | .negativeLength pos n =>
    "negative length " ++ toString n.toInt ++ " at byte " ++ toString pos
  | .nestingTooDeep pos =>
    "lists nested deeper than " ++ toString maxListDepth ++ " levels at byte " ++ toString pos
  | .unterminatedRecord pos =>
    "record starting at byte " ++ toString pos ++ " has no end-of-record marker"

/-- A place in a buffer: what was read, as a number of bytes, and what is left. -/
structure Cursor where
  pos : Nat
  rest : List UInt8

def Cursor.ofBytes (bytes : List UInt8) : Cursor := ⟨0, bytes⟩

/-- A step of reading. It answers with a result or an error, and with the place it got to. -/
def Read (α : Type) : Type := Cursor → Except DecodeError α × Cursor

namespace Read

def pure {α : Type} (a : α) : Read α := fun c => (.ok a, c)

def bind {α β : Type} (r : Read α) (f : α → Read β) : Read β := fun c =>
  match r c with
  | (.ok a, c) => f a c
  | (.error e, c) => (.error e, c)

instance : Monad Read where
  pure := pure
  bind := bind

def fail {α : Type} (e : DecodeError) : Read α := fun c => (.error e, c)

def position : Read Nat := fun c => (.ok c.pos, c)

def take (n : Nat) : Read (List UInt8) := fun c =>
  let (taken, rest) := c.rest.splitAt n
  if taken.length = n then (.ok taken, ⟨c.pos + n, rest⟩)
  else (.error (.unexpectedEof c.pos (n - taken.length)), c)

def unsigned (width : Nat) : Read Nat := do
  return Bytes.ofBigEndian (← take width)

def tag : Read Tag := do
  let pos ← position
  let n ← unsigned 1
  match Tag.ofByte? n.toUInt8 with
  | some t => return t
  | none => fail (.unknownTag n.toUInt8 pos)

/-- A signed length or count; `pos` is where the value it belongs to starts. -/
def length (pos : Nat) : Read Nat := do
  let n := (← unsigned 4).toUInt32.toInt32
  if n.toInt < 0 then fail (.negativeLength pos n) else return n.toInt.toNat

def millis : Read Int64 := do
  return (← unsigned 8).toUInt64.toInt64

def repeatOnto {α : Type} (r : Read α) : (n : Nat) → (out : List α) → Read (List α)
  | 0, out => pure out.reverse
  | n + 1, out => fun c =>
    match r c with
    | (.ok a, c) => repeatOnto r n (a :: out) c
    | (.error e, c) => (.error e, c)

def string : Read Cell := do
  let n ← unsigned 2
  let start ← position
  let bytes ← take n
  match ModifiedUtf8.decode bytes with
  | .ok cs => return .string (String.ofList cs)
  | .error offset => fail (.malformedString (start + offset))

def payload : (levels : Nat) → (t : Tag) → (pos : Nat) → Read Cell
  | _, .endOfRecord, pos => fail (.endOfRecordInList pos)
  | _, .boolean, _ => do return .bool ((← unsigned 1) != 0)
  | _, .byte, _ => do return .byte (← unsigned 1).toUInt8.toInt8
  | _, .short, _ => do return .short (← unsigned 2).toUInt16.toInt16
  | _, .integer, _ => do return .int (← unsigned 4).toUInt32.toInt32
  | _, .long, _ => do return .long (← unsigned 8).toUInt64.toInt64
  | _, .float, _ => do return .float ⟨(← unsigned 4).toUInt32⟩
  | _, .double, _ => do return .double ⟨(← unsigned 8).toUInt64⟩
  | _, .dateTime, pos => do
    let ms ← millis
    match Instant.ofMillis? ms.toInt with
    | some t => return .dateTime t
    | none => fail (.dateTimeOutOfRange pos ms)
  | _, .date, pos => do
    let ms ← millis
    match Date.ofDay? (ms.toInt / millisPerDay) with
    | some d => return .date d
    | none => fail (.dateTimeOutOfRange pos ms)
  | _, .raw, pos => do
    let n ← length pos
    return .raw (← take n)
  | _, .string, _ => string
  | 0, .list, pos => fail (.nestingTooDeep pos)
  | levels + 1, .list, pos => do
    let n ← length pos
    let item : Read Cell := do
      let pos ← position
      let t ← tag
      payload levels t pos
    return .list (← repeatOnto item n [])

def cell : Read Cell := do
  let pos ← position
  let t ← tag
  payload maxListDepth t pos

inductive Item where
  | cell (c : Cell)
  | endOfRecord

def nextItem : Read (Option Item) := fun c =>
  if c.rest.isEmpty then (.ok none, c)
  else
    (do
      let pos ← position
      let t ← tag
      if t = .endOfRecord then return some .endOfRecord
      else return some (.cell (← payload maxListDepth t pos)) : Read (Option Item)) c

/-- The cells up to the end marker of a row that began at `start`. Every cell takes a byte, so the
bytes left bound their number. -/
def cellsOnto (start : Nat) : (bound : Nat) → (out : List Cell) → Read Row
  | 0, _ => fail (.unterminatedRecord start)
  | bound + 1, out => fun c =>
    match nextItem c with
    | (.ok (some (.cell v)), c) => cellsOnto start bound (v :: out) c
    | (.ok (some .endOfRecord), c) => (.ok out.reverse, c)
    | (.ok none, c) => (.error (.unterminatedRecord start), c)
    | (.error e, c) => (.error e, c)

def row : Read (Option Row) := fun c =>
  if c.rest.isEmpty then (.ok none, c)
  else (do return some (← cellsOnto c.pos (c.rest.length + 1) []) : Read (Option Row)) c

end Read

def Cursor.rowsWithin : (bound : Nat) → Cursor → List (Except DecodeError Row)
  | 0, _ => []
  | bound + 1, c =>
    match Read.row c with
    | (.ok (some row), c) => .ok row :: rowsWithin bound c
    | (.ok none, _) => []
    | (.error e, _) => [.error e]

/-- All rows from a place on. Every row takes a byte, so the bytes left bound their number. -/
def Cursor.rows (c : Cursor) : List (Except DecodeError Row) := c.rowsWithin (c.rest.length + 1)

def decodeRows (bytes : List UInt8) : Except DecodeError (List Row) :=
  (Cursor.ofBytes bytes).rows.mapM id

end PathTemplate.Wire
