import PathTemplate.Value
import PathTemplate.Wire.Cell

namespace PathTemplate.Wire.Cell

variable {ρ : Type}

mutual

/-- The cell of a value. Null, maps and records have none. -/
def ofValue? : Value ρ → Option Cell
  | .null => none
  | .bool b => some (.bool b)
  | .byte n => some (.byte n)
  | .short n => some (.short n)
  | .int n => some (.int n)
  | .long n => some (.long n)
  | .float x => some (.float x)
  | .double x => some (.double x)
  | .string s => some (.string s)
  | .bytes b => some (.raw b)
  | .dateTime t => some (.dateTime t)
  | .date d => some (.date d)
  | .enum name => some (.string name)
  | .list items => some (.list (ofValues items))
  | .map .. => none
  | .record _ => none

def ofValues : List (Value ρ) → List Cell
  | [] => []
  | v :: vs => (ofValue? v).toList ++ ofValues vs

end

mutual

def value : Cell → Value ρ
  | .raw b => .bytes b
  | .dateTime t => .dateTime t
  | .date d => .date d
  | .bool b => .bool b
  | .byte n => .byte n
  | .short n => .short n
  | .int n => .int n
  | .long n => .long n
  | .float x => .float x
  | .double x => .double x
  | .string s => .string s
  | .list items => .list (values items)

def values : List Cell → List (Value ρ)
  | [] => []
  | c :: cs => value c :: values cs

end

end PathTemplate.Wire.Cell
