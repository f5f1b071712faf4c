namespace PathTemplate

inductive Ty where
  | bool
  | byte
  | short
  | int
  | long
  | float
  | double
  | string
  | bytes
  | dateTime
  | date
  | enum (name : String)
  | list (item : Ty)
  | map (value : Ty)
  | record (name : String)
  /-- Nothing is known; any default fits. -/
  | unknown
  deriving DecidableEq, Repr, Inhabited

namespace Ty

/-- Scalars of fixed width, which are never absent by themselves. -/
def isPrimitive : Ty → Bool
  | .bool | .byte | .short | .int | .long | .float | .double => true
  | _ => false

def isIntegral : Ty → Bool
  | .byte | .short | .int | .long => true
  | _ => false

def isNumeric : Ty → Bool
  | .byte | .short | .int | .long | .float | .double => true
  | _ => false

def isPrintable : Ty → Bool
  | .record _ | .map _ => false
  | .list item => item.isPrintable
  | _ => true

def text : Ty → String
  | .bool => "bool"
  | .byte => "byte"
  | .short => "short"
  | .int => "int"
  | .long => "long"
  | .float => "float"
  | .double => "double"
  | .string => "string"
  | .bytes => "bytes"
  | .dateTime => "datetime"
  | .date => "date"
  | .enum name => "enum " ++ name
  | .list item => "list<" ++ item.text ++ ">"
  | .map value => "map<string, " ++ value.text ++ ">"
  | .record name => name
  | .unknown => "unknown"

end Ty

/-- A type with its presence flags: `optional` values may be left out where they are declared,
`nullable` ones may come out as null where they are computed or looked up. -/
structure FlaggedTy where
  ty : Ty
  optional : Bool := false
  nullable : Bool := false
  deriving DecidableEq, Repr, Inhabited

namespace FlaggedTy

def plain (ty : Ty) : FlaggedTy := ⟨ty, false, false⟩

def unknown : FlaggedTy := ⟨.unknown, false, true⟩

def asOptional (t : FlaggedTy) : FlaggedTy := { t with optional := true }

def asNullable (t : FlaggedTy) : FlaggedTy := { t with nullable := true }

def present (t : FlaggedTy) : FlaggedTy := plain t.ty

def isFlagged (t : FlaggedTy) : Bool := t.optional || t.nullable

def mayBeAbsent (t : FlaggedTy) : Bool := t.isFlagged || t.ty == .unknown

def text (t : FlaggedTy) : String :=
  t.ty.text ++ (if t.optional then "?" else "") ++ (if t.nullable then " (nullable)" else "")

end FlaggedTy

end PathTemplate
