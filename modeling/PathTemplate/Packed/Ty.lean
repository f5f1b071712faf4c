import PathTemplate.Packed
import PathTemplate.Ty

namespace PathTemplate.Packed

def ty : Ty → List UInt8
  | .bool => variant 0
  | .byte => variant 1
  | .short => variant 2
  | .int => variant 3
  | .long => variant 4
  | .float => variant 5
  | .double => variant 6
  | .string => variant 7
  | .bytes => variant 8
  | .dateTime => variant 9
  | .date => variant 10
  | .enum name => variant 11 ++ string name
  | .list item => variant 12 ++ ty item
  | .map value => variant 13 ++ ty value
  | .record name => variant 14 ++ string name
  | .unknown => variant 15

def readTy : (levels : Nat) → Reader Ty
  | 0, _ => none
  | levels + 1, bytes => do
    let (index, bytes) ← readVariant bytes
    match index with
    | 0 => return (.bool, bytes)
    | 1 => return (.byte, bytes)
    | 2 => return (.short, bytes)
    | 3 => return (.int, bytes)
    | 4 => return (.long, bytes)
    | 5 => return (.float, bytes)
    | 6 => return (.double, bytes)
    | 7 => return (.string, bytes)
    | 8 => return (.bytes, bytes)
    | 9 => return (.dateTime, bytes)
    | 10 => return (.date, bytes)
    | 11 =>
      let (name, bytes) ← readString bytes
      return (.enum name, bytes)
    | 12 =>
      let (item, bytes) ← readTy levels bytes
      return (.list item, bytes)
    | 13 =>
      let (value, bytes) ← readTy levels bytes
      return (.map value, bytes)
    | 14 =>
      let (name, bytes) ← readString bytes
      return (.record name, bytes)
    | 15 => return (.unknown, bytes)
    | _ => none

def flaggedTy (t : FlaggedTy) : List UInt8 := ty t.ty ++ flag t.optional ++ flag t.nullable

end PathTemplate.Packed
