/-!
Binary floating-point formats. A number is kept as its bit pattern; arithmetic takes the pattern
apart into a sign, a significand and a power of two, works exactly on natural numbers, and rounds
once, to the nearest representable number with a tie going to the even significand.
-/

namespace PathTemplate.Numeric

/-- A binary interchange format, by the widths of its two fields. -/
structure Format where
  fractionBits : Nat
  exponentBits : Nat
  deriving DecidableEq, Repr

namespace Format

def single : Format := ⟨23, 8⟩

def double : Format := ⟨52, 11⟩

/-- The smallest positive number is `2 ^ minExponent`. -/
def minExponent (f : Format) : Int := (2 : Int) - Nat.pow 2 (f.exponentBits - 1) - f.fractionBits

/-- The exponent field of infinities and of numbers that are none. -/
def topField (f : Format) : Nat := Nat.pow 2 f.exponentBits - 1

def infinityBits (f : Format) : Nat := f.topField * Nat.pow 2 f.fractionBits

def signBit (f : Format) : Nat := Nat.pow 2 (f.fractionBits + f.exponentBits)

def quietBit (f : Format) : Nat := Nat.pow 2 (f.fractionBits - 1)

end Format

/-- What a bit pattern stands for. A finite datum has the magnitude
`significand * 2 ^ exponent`. -/
inductive Datum where
  | notNumber (negative : Bool) (payload : Nat)
  | infinite (negative : Bool)
  | finite (negative : Bool) (significand : Nat) (exponent : Int)
  deriving DecidableEq, Repr

namespace Datum

def negative : Datum → Bool
  | .notNumber s _ => s
  | .infinite s => s
  | .finite s _ _ => s

def isNotNumber : Datum → Bool
  | .notNumber .. => true
  | _ => false

def isZero : Datum → Bool
  | .finite _ 0 _ => true
  | _ => false

end Datum

namespace Format

def decode (f : Format) (bits : Nat) : Datum :=
  let s := bits / f.signBit % 2 == 1
  let e := bits / Nat.pow 2 f.fractionBits % Nat.pow 2 f.exponentBits
  let m := bits % Nat.pow 2 f.fractionBits
  if e = f.topField then
    if m = 0 then .infinite s else .notNumber s m
  else if e = 0 then .finite s m f.minExponent
  else .finite s (Nat.pow 2 f.fractionBits + m) (f.minExponent + (e - 1 : Nat))

def withSign (f : Format) (negative : Bool) (magnitude : Nat) : Nat :=
  if negative then f.signBit + magnitude else magnitude

def roundHalfEven (num den : Nat) : Nat :=
  let q := num / den
  let r := num % den
  if 2 * r < den then q
  else if den < 2 * r then q + 1
  else q + q % 2

/-- The exponent `k` with `2 ^ k ≤ num / den < 2 ^ (k + 1)`. -/
def floorLog2 (num den : Nat) : Int :=
  let k : Int := (Nat.log2 num : Int) - (Nat.log2 den : Int)
  if num * Nat.pow 2 (-k).toNat < den * Nat.pow 2 k.toNat then k - 1 else k

def ofRatio (f : Format) (negative : Bool) (num den : Nat) : Nat :=
  if num = 0 then f.withSign negative 0
  else
    let q := max f.minExponent (floorLog2 num den - f.fractionBits)
    let m := roundHalfEven (num * Nat.pow 2 (-q).toNat) (den * Nat.pow 2 q.toNat)
    let magnitude :=
      if m < Nat.pow 2 f.fractionBits then m
      else ((q - f.minExponent).toNat + 1) * Nat.pow 2 f.fractionBits +
        (m - Nat.pow 2 f.fractionBits)
    f.withSign negative (min magnitude f.infinityBits)

def ofScaled (f : Format) (negative : Bool) (m : Nat) (q : Int) : Nat :=
  f.ofRatio negative (m * Nat.pow 2 q.toNat) (Nat.pow 2 (-q).toNat)

def ofInt (f : Format) (n : Int) : Nat := f.ofRatio (n < 0) n.natAbs 1

/-- The pattern that an undefined operation yields. -/
def undefinedBits (f : Format) : Nat := f.signBit + f.infinityBits + f.quietBit

def quiet (f : Format) (negative : Bool) (payload : Nat) : Nat :=
  f.withSign negative
    (f.infinityBits + (if payload < f.quietBit then payload + f.quietBit else payload))

def encode (f : Format) : Datum → Nat
  | .notNumber s p => f.quiet s p
  | .infinite s => f.withSign s f.infinityBits
  | .finite s m q => f.ofScaled s m q

/-- Two data on a common power of two, as signed whole numbers. -/
def align (s : Bool) (m : Nat) (q : Int) (s' : Bool) (m' : Nat) (q' : Int) : Int × Int × Int :=
  let low := min q q'
  let signed (s : Bool) (n : Nat) : Int := if s then -(n : Int) else n
  (signed s (m * Nat.pow 2 (q - low).toNat), signed s' (m' * Nat.pow 2 (q' - low).toNat), low)

def add (f : Format) (x y : Datum) : Nat :=
  match x, y with
  | .notNumber s p, _ => f.quiet s p
  | _, .notNumber s p => f.quiet s p
  | .infinite s, .infinite s' => if s = s' then f.withSign s f.infinityBits else f.undefinedBits
  | .infinite s, _ => f.withSign s f.infinityBits
  | _, .infinite s => f.withSign s f.infinityBits
  | .finite s m q, .finite s' m' q' =>
    let (a, b, low) := align s m q s' m' q'
    let sum := a + b
    f.ofScaled (if sum = 0 then s && s' else sum < 0) sum.natAbs low

def negate : Datum → Datum
  | .notNumber s p => .notNumber s p
  | .infinite s => .infinite (!s)
  | .finite s m q => .finite (!s) m q

def sub (f : Format) (x y : Datum) : Nat := f.add x (negate y)

def mul (f : Format) (x y : Datum) : Nat :=
  match x, y with
  | .notNumber s p, _ => f.quiet s p
  | _, .notNumber s p => f.quiet s p
  | .finite s m q, .finite s' m' q' => f.ofScaled (s != s') (m * m') (q + q')
  | x, y =>
    if x.isZero || y.isZero then f.undefinedBits
    else f.withSign (x.negative != y.negative) f.infinityBits

def div (f : Format) (x y : Datum) : Nat :=
  match x, y with
  | .notNumber s p, _ => f.quiet s p
  | _, .notNumber s p => f.quiet s p
  | .infinite _, .infinite _ => f.undefinedBits
  | .infinite s, y => f.withSign (s != y.negative) f.infinityBits
  | x, .infinite s => f.withSign (x.negative != s) 0
  | .finite s m q, .finite s' m' q' =>
    if m' = 0 then
      if m = 0 then f.undefinedBits else f.withSign (s != s') f.infinityBits
    else f.ofRatio (s != s') (m * Nat.pow 2 (q - q').toNat) (m' * Nat.pow 2 (q' - q).toNat)

def rem (f : Format) (x y : Datum) : Nat :=
  match x, y with
  | .notNumber s p, _ => f.quiet s p
  | _, .notNumber s p => f.quiet s p
  | .infinite _, _ => f.undefinedBits
  | x, .infinite _ => f.encode x
  | .finite s m q, .finite _ m' q' =>
    if m' = 0 then f.undefinedBits
    else
      let low := min q q'
      f.ofScaled s (m * Nat.pow 2 (q - low).toNat % (m' * Nat.pow 2 (q' - low).toNat)) low

/-- The same datum in another format. A payload keeps its leading bits. -/
def convert (target source : Format) : Datum → Nat
  | .notNumber s p =>
    target.quiet s (p * Nat.pow 2 target.fractionBits / Nat.pow 2 source.fractionBits)
  | d => target.encode d

/-- Numeric equality: the two zeros are equal, and what is not a number equals nothing. -/
def same (x y : Datum) : Bool :=
  match x, y with
  | .notNumber .., _ => false
  | _, .notNumber .. => false
  | .infinite s, .infinite s' => s == s'
  | .finite s m q, .finite s' m' q' =>
    let (a, b, _) := align s m q s' m' q'
    a == b
  | _, _ => false

end Format

def Datum.clampedInt (lo hi : Int) : Datum → Int
  | .notNumber .. => 0
  | .infinite s => if s then lo else hi
  | .finite s m q =>
    let n : Int := ((m * Nat.pow 2 q.toNat / Nat.pow 2 (-q).toNat : Nat) : Int)
    max lo (min hi (if s then -n else n))

end PathTemplate.Numeric
