/-!
Modified UTF-8. Characters are written by their 16-bit units: a unit below 128 other than zero takes
one byte, one below 2048 and the zero two, any other three. A character beyond 16 bits is thus a
pair of surrogates of three bytes each, and no encoded text holds a zero byte.
-/

namespace PathTemplate.Wire.ModifiedUtf8

def charWidth (c : Char) : Nat :=
  if c.toNat = 0 then 2
  else if c.toNat < 0x80 then 1
  else if c.toNat < 0x800 then 2
  else if c.toNat < 0x10000 then 3
  else 6

def encodedLength (cs : List Char) : Nat := cs.foldl (fun n c => n + charWidth c) 0

def twoBytes (n : Nat) : List UInt8 :=
  [(0xC0 + n / 64 % 32).toUInt8, (0x80 + n % 64).toUInt8]

def threeBytes (n : Nat) : List UInt8 :=
  [(0xE0 + n / 4096 % 16).toUInt8, (0x80 + n / 64 % 64).toUInt8, (0x80 + n % 64).toUInt8]

def encodeChar (c : Char) : List UInt8 :=
  let n := c.toNat
  if n = 0 then twoBytes 0
  else if n < 0x80 then [n.toUInt8]
  else if n < 0x800 then twoBytes n
  else if n < 0x10000 then threeBytes n
  else
    threeBytes (0xD800 + (n - 0x10000) / 0x400) ++ threeBytes (0xDC00 + (n - 0x10000) % 0x400)

def encode (cs : List Char) : List UInt8 := cs.flatMap encodeChar

def isContinuation (b : UInt8) : Bool := b &&& 0xC0 == 0x80

def twoUnit (a b : UInt8) : Nat := (a &&& 0x1F).toNat * 64 + (b &&& 0x3F).toNat

def threeUnit (a b c : UInt8) : Nat :=
  (a &&& 0x0F).toNat * 4096 + (b &&& 0x3F).toNat * 64 + (c &&& 0x3F).toNat

/-- The 16-bit units of the bytes, put behind the finished `out`, which stands last unit first.
The bytes start at offset `pos`; an error is the offset of the byte that does not fit. -/
def unitsOnto (pos : Nat) (out : List Nat) : List UInt8 → Except Nat (List Nat)
  | [] => .ok out.reverse
  | a :: rest =>
    if a < 0x80 then unitsOnto (pos + 1) (a.toNat :: out) rest
    else if a &&& 0xE0 == 0xC0 then
      match rest with
      | [] => .error (pos + 1)
      | b :: rest =>
        if isContinuation b then unitsOnto (pos + 2) (twoUnit a b :: out) rest
        else .error (pos + 1)
    else if a &&& 0xF0 == 0xE0 then
      match rest with
      | [] => .error (pos + 1)
      | b :: rest =>
        if isContinuation b then
          match rest with
          | [] => .error (pos + 2)
          | c :: rest =>
            if isContinuation c then unitsOnto (pos + 3) (threeUnit a b c :: out) rest
            else .error (pos + 2)
        else .error (pos + 1)
    else .error pos

def isHighSurrogate (n : Nat) : Bool := 0xD800 ≤ n && n < 0xDC00

def isLowSurrogate (n : Nat) : Bool := 0xDC00 ≤ n && n < 0xE000

def charsOnto (out : List Char) : List Nat → Option (List Char)
  | [] => some out.reverse
  | u :: rest =>
    if isHighSurrogate u then
      match rest with
      | [] => none
      | v :: rest =>
        if isLowSurrogate v then
          charsOnto (Char.ofNat (0x10000 + (u - 0xD800) * 0x400 + (v - 0xDC00)) :: out) rest
        else none
    else if isLowSurrogate u then none
    else charsOnto (Char.ofNat u :: out) rest

/-- Reads any bytes, group by group. A lone surrogate is reported at the start, where no single
byte is to blame. -/
def decodeGroups (bytes : List UInt8) : Except Nat (List Char) := do
  let units ← unitsOnto 0 [] bytes
  match charsOnto [] units with
  | some cs => .ok cs
  | none => .error 0

def isPlain (b : UInt8) : Bool := b != 0 && b < 0x80

def decodePlain (bytes : List UInt8) : List Char := bytes.map fun b => Char.ofNat b.toNat

def decode (bytes : List UInt8) : Except Nat (List Char) :=
  if bytes.all isPlain then .ok (decodePlain bytes) else decodeGroups bytes

end PathTemplate.Wire.ModifiedUtf8
