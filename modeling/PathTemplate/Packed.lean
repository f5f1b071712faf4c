import PathTemplate.Bytes

/-!
Self-delimiting byte forms of simple data. Whole numbers have a fixed width and start with the
lowest byte; texts and lists stand behind their length. Each form has a reader beside it, which
gives what it read and the bytes after that, or nothing for bytes that are no such form.
-/

namespace PathTemplate.Packed

abbrev Reader (α : Type) := List UInt8 → Option (α × List UInt8)

def take (n : Nat) : Reader (List UInt8) := fun bytes =>
  let taken := bytes.take n
  if taken.length = n then some (taken, bytes.drop n) else none

def uint (width n : Nat) : List UInt8 := Bytes.littleEndian width n

def readUint (width : Nat) : Reader Nat := fun bytes => do
  let (taken, rest) ← take width bytes
  return (Bytes.ofLittleEndian taken, rest)

/-- The place of a constructor among those of its type. -/
def variant (index : Nat) : List UInt8 := uint 4 index

def readVariant : Reader Nat := readUint 4

def word (n : Nat) : List UInt8 := uint 8 n

def readWord : Reader Nat := readUint 8

def flag (b : Bool) : List UInt8 := [if b then 1 else 0]

def readFlag : Reader Bool
  | 0 :: rest => some (false, rest)
  | 1 :: rest => some (true, rest)
  | _ => none

/-- A text in UTF-8 behind the number of its bytes. -/
def string (s : String) : List UInt8 :=
  let bytes := s.toUTF8.toList
  word bytes.length ++ bytes

def readString : Reader String := fun bytes => do
  let (size, bytes) ← readWord bytes
  let (taken, rest) ← take size bytes
  let s ← String.fromUTF8? ⟨taken.toArray⟩
  return (s, rest)

def list {α : Type} (item : α → List UInt8) (items : List α) : List UInt8 :=
  word items.length ++ items.flatMap item

def readMany {α : Type} (item : Reader α) : Nat → Reader (List α)
  | 0 => fun bytes => some ([], bytes)
  | n + 1 => fun bytes => do
    let (a, bytes) ← item bytes
    let (more, rest) ← readMany item n bytes
    return (a :: more, rest)

def readList {α : Type} (item : Reader α) : Reader (List α) := fun bytes => do
  let (size, bytes) ← readWord bytes
  readMany item size bytes

end PathTemplate.Packed
