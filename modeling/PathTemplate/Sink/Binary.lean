import PathTemplate.Sink.Basic
import PathTemplate.Wire.Writer

/-!
Wire output. Every value becomes one cell; nulls are left out, also inside lists, and a string too
long for its length field is cut.
-/

namespace PathTemplate

open Wire

structure BinarySink where
  content : List UInt8
  /-- Size of the content when the last record ended. -/
  recordStart : Nat

namespace BinarySink

variable {ρ : Type}

def empty : BinarySink := ⟨[], 0⟩

mutual

def encode : Value ρ → List UInt8
  | .null => []
  | .bool b => encodeBool b
  | .byte n => encodeByte n
  | .short n => encodeShort n
  | .int n => encodeInt n
  | .long n => encodeLong n
  | .float x => encodeFloat x
  | .double x => encodeDouble x
  | .string s => (encodeStringCut s).1
  | .bytes b => (encodeRaw b).toOption.getD []
  | .dateTime t => encodeDateTime t
  | .date d => encodeDate d
  | .enum name => (encodeStringCut name).1
  | .list items =>
    match encodeListHead (items.countP fun v => !v.isNull) with
    | .ok head => head ++ encodeItems items
    | .error _ => []
  | .map .. => []
  | .record _ => []

def encodeItems : List (Value ρ) → List UInt8
  | [] => []
  | v :: vs => encode v ++ encodeItems vs

end

def append (s : BinarySink) (bytes : List UInt8) : BinarySink :=
  { s with content := s.content ++ bytes }

instance : Sink BinarySink where
  kind := "binary"
  fresh _ := empty
  accept s v := s.append (encode v)
  splice s other := s.append other.content
  isEmpty s := s.content.isEmpty
  bytes s := s.content
  reset _ := empty
  endRecord force s :=
    if force || s.recordStart < s.content.length then
      let s := s.append endOfRecord
      { s with recordStart := s.content.length }
    else s

end BinarySink

end PathTemplate
