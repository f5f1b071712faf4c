import PathTemplate.Numeric.Format

namespace PathTemplate.Numeric

structure Binary32 where
  bits : UInt32
  deriving DecidableEq, Repr

structure Binary64 where
  bits : UInt64
  deriving DecidableEq, Repr

namespace Binary32

def datum (x : Binary32) : Datum := Format.single.decode x.bits.toNat

def ofBits (n : Nat) : Binary32 := ⟨n.toUInt32⟩

def isNotNumber (x : Binary32) : Bool := x.datum.isNotNumber

def same (x y : Binary32) : Bool := Format.same x.datum y.datum

def ofInt (n : Int) : Binary32 := ofBits (Format.single.ofInt n)

def widen (x : Binary32) : Binary64 := ⟨(Format.convert .double .single x.datum).toUInt64⟩

end Binary32

namespace Binary64

def datum (x : Binary64) : Datum := Format.double.decode x.bits.toNat

def ofBits (n : Nat) : Binary64 := ⟨n.toUInt64⟩

def isNotNumber (x : Binary64) : Bool := x.datum.isNotNumber

def same (x y : Binary64) : Bool := Format.same x.datum y.datum

def isZero (x : Binary64) : Bool := x.datum.isZero

def ofInt (n : Int) : Binary64 := ofBits (Format.double.ofInt n)

def narrow (x : Binary64) : Binary32 := .ofBits (Format.convert .single .double x.datum)

def add (x y : Binary64) : Binary64 := ofBits (Format.double.add x.datum y.datum)

def sub (x y : Binary64) : Binary64 := ofBits (Format.double.sub x.datum y.datum)

def mul (x y : Binary64) : Binary64 := ofBits (Format.double.mul x.datum y.datum)

def div (x y : Binary64) : Binary64 := ofBits (Format.double.div x.datum y.datum)

def rem (x y : Binary64) : Binary64 := ofBits (Format.double.rem x.datum y.datum)

/-- Cut toward zero; out of range goes to the nearest bound and what is not a number to zero. -/
def toInt64 (x : Binary64) : Int64 :=
  .ofInt (x.datum.clampedInt (-9223372036854775808) 9223372036854775807)

end Binary64

end PathTemplate.Numeric
