import PathTemplate.Calendar.Instant
import PathTemplate.Numeric.Decimal
import PathTemplate.Text.Hex
import PathTemplate.Text.Quoted

namespace PathTemplate

open Numeric Calendar

inductive Value (ρ : Type) where
  | null
  | bool (b : Bool)
  | byte (n : Int8)
  | short (n : Int16)
  | int (n : Int32)
  | long (n : Int64)
  | float (x : Binary32)
  | double (x : Binary64)
  | string (s : String)
  | bytes (b : List UInt8)
  | dateTime (t : Instant)
  | date (d : Date)
  | enum (name : String)
  | list (items : List (Value ρ))
  /-- A missing key answers null. -/
  | map (size : Nat) (lookup : String → Value ρ)
  | record (r : ρ)
  deriving Inhabited

namespace Value

variable {ρ : Type}

def isNull : Value ρ → Bool
  | .null => true
  | _ => false

def kind : Value ρ → String
  | .null => "null"
  | .bool _ => "bool"
  | .byte _ => "byte"
  | .short _ => "short"
  | .int _ => "int"
  | .long _ => "long"
  | .float _ => "float"
  | .double _ => "double"
  | .string _ => "string"
  | .bytes _ => "bytes"
  | .dateTime _ => "datetime"
  | .date _ => "date"
  | .enum _ => "enum"
  | .list _ => "list"
  | .map .. => "map"
  | .record _ => "object"

def string? : Value ρ → Option String
  | .string s | .enum s => some s
  | _ => none

def int64? : Value ρ → Option Int64
  | .byte n => some n.toInt64
  | .short n => some n.toInt64
  | .int n => some n.toInt64
  | .long n => some n
  | _ => none

def binary64? : Value ρ → Option Binary64
  | .float x => some x.widen
  | .double x => some x
  | v => v.int64?.map fun n => .ofInt n.toInt

mutual

/-- The same value without its input; records and maps cannot be taken out of theirs. -/
def detach? {ρ' : Type} : Value ρ → Option (Value ρ')
  | .null => some .null
  | .bool b => some (.bool b)
  | .byte n => some (.byte n)
  | .short n => some (.short n)
  | .int n => some (.int n)
  | .long n => some (.long n)
  | .float x => some (.float x)
  | .double x => some (.double x)
  | .string s => some (.string s)
  | .bytes b => some (.bytes b)
  | .dateTime t => some (.dateTime t)
  | .date d => some (.date d)
  | .enum name => some (.enum name)
  | .list items => (detachAll? items).map .list
  | .map .. => none
  | .record _ => none

def detachAll? {ρ' : Type} : List (Value ρ) → Option (List (Value ρ'))
  | [] => some []
  | v :: vs => do
    let v ← detach? v
    let vs ← detachAll? vs
    pure (v :: vs)

end

mutual

/-- Plain text. Null, records and maps have none; a list joins its items with commas. -/
def text? : Value ρ → Option String
  | .null => none
  | .bool b => some (if b then "true" else "false")
  | .byte n => some (toString n.toInt)
  | .short n => some (toString n.toInt)
  | .int n => some (toString n.toInt)
  | .long n => some (toString n.toInt)
  | .float x => some x.text
  | .double x => some x.text
  | .string s => some s
  | .bytes b => some (Text.hex b)
  | .dateTime t => some t.text
  | .date d => some d.text
  | .enum name => some name
  | .list items => some (",".intercalate (itemTexts items))
  | .map .. => none
  | .record _ => none

def itemTexts : List (Value ρ) → List String
  | [] => []
  | v :: vs => (text? v).getD "" :: itemTexts vs

end

mutual

def listing : Value ρ → String
  | .null => "Null"
  | .bool b => "Bool(" ++ (if b then "true" else "false") ++ ")"
  | .byte n => "Byte(" ++ toString n.toInt ++ ")"
  | .short n => "Short(" ++ toString n.toInt ++ ")"
  | .int n => "Int(" ++ toString n.toInt ++ ")"
  | .long n => "Long(" ++ toString n.toInt ++ ")"
  | .float x => "Float(" ++ x.text ++ ")"
  | .double x => "Double(" ++ x.text ++ ")"
  | .string s => "Str(" ++ Text.quoted s ++ ")"
  | .bytes b => "Bytes(" ++ Text.hex b ++ ")"
  | .dateTime t => "DateTime(" ++ t.longText ++ ")"
  | .date d => "Date(" ++ d.text ++ ")"
  | .enum name => "Enum(" ++ name ++ ")"
  | .list items => "List([" ++ ", ".intercalate (listings items) ++ "])"
  | .map size _ => "Map(" ++ toString size ++ " entries)"
  | .record _ => "Object(..)"

def listings : List (Value ρ) → List String
  | [] => []
  | v :: vs => listing v :: listings vs

end

mutual

/-- Equality of values of one kind, numbers compared as numbers. Two maps or two records are never
the same, since nothing tells whether they are one. -/
def same : Value ρ → Value ρ → Bool
  | .null, .null => true
  | .bool a, .bool b => a == b
  | .byte a, .byte b => a == b
  | .short a, .short b => a == b
  | .int a, .int b => a == b
  | .long a, .long b => a == b
  | .float a, .float b => a.same b
  | .double a, .double b => a.same b
  | .string a, .string b => a == b
  | .bytes a, .bytes b => a == b
  | .dateTime a, .dateTime b => a == b
  | .date a, .date b => a == b
  | .enum a, .enum b => a == b
  | .list a, .list b => sameItems a b
  | _, _ => false

def sameItems : List (Value ρ) → List (Value ρ) → Bool
  | [], [] => true
  | a :: as, b :: bs => same a b && sameItems as bs
  | _, _ => false

end

end Value

end PathTemplate
