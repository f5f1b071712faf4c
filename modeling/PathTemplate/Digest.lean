import PathTemplate.Packed
import PathTemplate.Text.Hex

namespace PathTemplate

structure ContentHash where
  bits : UInt64
  deriving DecidableEq, Repr, Inhabited

abbrev HashFunction := List UInt8 → ContentHash

/-- Each byte is mixed in by exclusive or and a multiplication by a fixed prime. -/
def HashFunction.mixing : HashFunction := fun bytes =>
  ⟨bytes.foldl (fun h b => (h ^^^ b.toUInt64) * 0x100000001b3) 0xcbf29ce484222325⟩

namespace ContentHash

def text (h : ContentHash) : String := Text.hex (Bytes.bigEndian 8 h.bits.toNat)

def digitValue? (c : Char) : Option Nat :=
  if c.isDigit then some (c.toNat - 48)
  else if 'a' ≤ c && c ≤ 'f' then some (c.toNat - 87)
  else if 'A' ≤ c && c ≤ 'F' then some (c.toNat - 55)
  else none

/-- Reads hexadecimal digits of either case, with a plus sign allowed in front. -/
def ofText? (s : String) : Option ContentHash :=
  let digits := match s.toList with
    | '+' :: rest => rest
    | cs => cs
  if digits.isEmpty then none
  else
    match digits.mapM digitValue? with
    | none => none
    | some ds =>
      let n := ds.foldl (fun n d => n * 16 + d) 0
      if n < 18446744073709551616 then some ⟨n.toUInt64⟩ else none

end ContentHash

end PathTemplate
