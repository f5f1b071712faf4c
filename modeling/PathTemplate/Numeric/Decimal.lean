import PathTemplate.Numeric.Binary

/-!
Decimal text of floating-point numbers. Writing takes the fewest digits that read back as the same
number; among those the nearest, and of two equally near ones the larger. Reading is exact and
rounds once.
-/

namespace PathTemplate.Numeric

/-- A positive decimal: `digits * 10 ^ exponent`, with no trailing zero in `digits`. -/
structure Decimal where
  digits : Nat
  exponent : Int
  deriving DecidableEq, Repr

namespace Decimal

/-- The numbers that round to `m * 2 ^ q` lie between `(centre - below) * 2 ^ scale` and
`(centre + above) * 2 ^ scale`; the ends belong to them when `closed` is set. -/
structure Interval where
  centre : Nat
  below : Nat
  above : Nat
  scale : Int
  closed : Bool
  deriving Repr

def interval (f : Format) (m : Nat) (q : Int) : Interval :=
  if m = Nat.pow 2 f.fractionBits then ⟨4 * m, 1, 2, q - 2, true⟩
  else ⟨2 * m, 1, 1, q - 1, m % 2 == 0⟩

/-- The point on the grid of multiples of `10 ^ k` that stands for the centre, if one is inside. -/
def onGrid (i : Interval) (k : Int) : Option Nat :=
  let unit := Nat.pow 10 k.toNat * Nat.pow 2 (-i.scale).toNat
  let factor := Nat.pow 10 (-k).toNat * Nat.pow 2 i.scale.toNat
  let lower := (i.centre - i.below) * factor
  let centre := i.centre * factor
  let upper := (i.centre + i.above) * factor
  let down := centre / unit
  let inside (n : Nat) : Bool :=
    if i.closed then lower ≤ n * unit && n * unit ≤ upper
    else lower < n * unit && n * unit < upper
  match inside down, inside (down + 1) with
  | true, true =>
    if 2 * (centre - down * unit) < unit then some down else some (down + 1)
  | true, false => some down
  | false, true => some (down + 1)
  | false, false => none

def coarsest (i : Interval) : (steps : Nat) → (k : Int) → Decimal
  | 0, k => ⟨0, k⟩
  | n + 1, k =>
    match onGrid i k with
    | some d => if d = 0 then coarsest i n (k - 1) else ⟨d, k⟩
    | none => coarsest i n (k - 1)

/-- The shortest decimal of the positive number `m * 2 ^ q`. The first grid is coarser than the
number itself, and seventeen digits always suffice. -/
def shortest (f : Format) (m : Nat) (q : Int) : Decimal :=
  let magnitude : Int := q + Nat.log2 m
  coarsest (interval f m q) 24 (magnitude * 30103 / 100000 + 2)

def zeros (n : Nat) : String := String.ofList (List.replicate n '0')

/-- Digits with a point among them and no exponent; `least` places are kept after the point. -/
def positional (d : Decimal) (least : Nat) : String :=
  let text := toString d.digits
  let whole : Int := text.length + d.exponent
  let (front, back) :=
    if 0 ≤ d.exponent then (text ++ zeros d.exponent.toNat, "")
    else if 0 < whole then
      (String.ofList (text.toList.take whole.toNat), String.ofList (text.toList.drop whole.toNat))
    else ("0", zeros (-whole).toNat ++ text)
  let back := back ++ zeros (least - back.length)
  if back.isEmpty then front else front ++ "." ++ back

def scientific (d : Decimal) : String :=
  match (toString d.digits).toList with
  | [] => ""
  | c :: rest =>
    let power : Int := d.exponent + rest.length
    let fraction := if rest.isEmpty then "" else "." ++ String.ofList rest
    String.ofList [c] ++ fraction ++ "e" ++ toString power

def below (d : Decimal) (k : Int) : Bool :=
  ((toString d.digits).length : Int) + d.exponent ≤ k

end Decimal

/-- How a number is laid out. The plain form never has an exponent and drops a zero fraction; the
marked form keeps one and turns to powers of ten below `1e-4` and from `1e16` on. -/
inductive Layout where
  | plain
  | marked
  deriving DecidableEq, Repr

def Layout.number (l : Layout) (d : Decimal) : String :=
  match l with
  | .plain => d.positional 0
  | .marked => if d.below (-4) || !d.below 16 then d.scientific else d.positional 1

def Layout.zero : Layout → String
  | .plain => "0"
  | .marked => "0.0"

def Layout.datum (l : Layout) (f : Format) (d : Datum) : String :=
  match d with
  | .notNumber .. => "NaN"
  | .infinite s => if s then "-inf" else "inf"
  | .finite s m q =>
    (if s then "-" else "") ++ (if m = 0 then l.zero else l.number (.shortest f m q))

namespace Binary32

def text (x : Binary32) : String := Layout.plain.datum .single x.datum

def markedText (x : Binary32) : String := Layout.marked.datum .single x.datum

end Binary32

namespace Binary64

def text (x : Binary64) : String := Layout.plain.datum .double x.datum

def markedText (x : Binary64) : String := Layout.marked.datum .double x.datum

/-- The number nearest to `digits * 10 ^ exponent`. What is far beyond the range of the format is
settled without writing the number out; a power of ten takes more than three bits. -/
def ofDecimal (negative : Bool) (digits : Nat) (exponent : Int) : Binary64 :=
  if digits = 0 || digits.log2 + 3 * exponent < -1200 then
    ofBits (Format.double.withSign negative 0)
  else if 400 < exponent then ofBits (Format.double.withSign negative Format.double.infinityBits)
  else ofBits (Format.double.ofRatio negative (digits * Nat.pow 10 exponent.toNat)
    (Nat.pow 10 (-exponent).toNat))

end Binary64

end PathTemplate.Numeric
