namespace PathTemplate.Bytes

/-- The `width` low bytes of `n`, highest first. -/
def bigEndian : (width : Nat) → (n : Nat) → List UInt8
  | 0, _ => []
  | w + 1, n => (n / Nat.pow 256 w).toUInt8 :: bigEndian w n

def ofBigEndian (bytes : List UInt8) : Nat := bytes.foldl (fun n b => n * 256 + b.toNat) 0

def littleEndian : (width : Nat) → (n : Nat) → List UInt8
  | 0, _ => []
  | w + 1, n => n.toUInt8 :: littleEndian w (n / 256)

def ofLittleEndian : List UInt8 → Nat
  | [] => 0
  | b :: bs => b.toNat + 256 * ofLittleEndian bs

end PathTemplate.Bytes
