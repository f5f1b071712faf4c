import PathTemplate.Wire.Reader
import PathTemplate.Wire.Writer

namespace PathTemplate

namespace Bytes

theorem bigEndian_length (w n : Nat) : (bigEndian w n).length = w := by
  induction w with
  | zero => rfl
  | succ w ih => simp [bigEndian, ih]

theorem foldl_bigEndian (w n a : Nat) :
    (bigEndian w n).foldl (fun n b => n * 256 + b.toNat) a =
      a * Nat.pow 256 w + n % Nat.pow 256 w := by
  induction w generalizing a with
  | zero => simp [bigEndian, Nat.mod_one]
  | succ w ih =>
    have hbyte : (n / Nat.pow 256 w).toUInt8.toNat = n / Nat.pow 256 w % 256 := by
      simp [Nat.toUInt8, UInt8.toNat_ofNat']
    have hpow : Nat.pow 256 (w + 1) = Nat.pow 256 w * 256 := rfl
    have hmod : n % Nat.pow 256 (w + 1) =
        n / Nat.pow 256 w % 256 * Nat.pow 256 w + n % Nat.pow 256 w := by
      rw [hpow, Nat.mod_mul, Nat.add_comm, Nat.mul_comm]
    rw [bigEndian, List.foldl_cons, ih, hmod, hbyte, hpow, Nat.add_mul]
    rw [Nat.mul_assoc a 256, Nat.mul_comm 256, Nat.add_assoc]

theorem ofBigEndian_bigEndian {w n : Nat} (h : n < Nat.pow 256 w) :
    ofBigEndian (bigEndian w n) = n := by
  rw [ofBigEndian, foldl_bigEndian, Nat.mod_eq_of_lt h]
  simp

theorem bigEndian_one (b : UInt8) : bigEndian 1 b.toNat = [b] := by
  simp [bigEndian]

end Bytes

namespace Wire

open Read

variable {α β : Type}

/-- The step reads exactly these bytes, wherever they are and whatever follows them. -/
def Yields (r : Read α) (bytes : List UInt8) (a : α) : Prop :=
  ∀ pos rest, r ⟨pos, bytes ++ rest⟩ = (.ok a, ⟨pos + bytes.length, rest⟩)

/-- The step meets a list that nests too deep before it is through with these bytes. -/
def TooDeep (r : Read α) (bytes : List UInt8) : Prop :=
  ∀ pos rest, ∃ place c, r ⟨pos, bytes ++ rest⟩ = (.error (.nestingTooDeep place), c)

theorem bind_apply (r : Read α) (f : α → Read β) (c : Cursor) :
    (r >>= f) c = match r c with
      | (.ok a, c) => f a c
      | (.error e, c) => (.error e, c) := rfl

namespace Yields

theorem pure (a : α) : Yields (Pure.pure a) [] a := fun _ _ => rfl

theorem bind {r : Read α} {f : α → Read β} {bytes more : List UInt8} {a : α} {b : β}
    (hr : Yields r bytes a) (hf : Yields (f a) more b) : Yields (r >>= f) (bytes ++ more) b := by
  intro pos rest
  rw [bind_apply, List.append_assoc, hr]
  dsimp only
  rw [hf, List.length_append, Nat.add_assoc]

theorem last {r : Read α} {f : α → Read β} {bytes : List UInt8} {a : α} {b : β}
    (hr : Yields r bytes a) (hf : Yields (f a) [] b) : Yields (r >>= f) bytes b := by
  have h := hr.bind hf
  rwa [List.append_nil] at h

theorem map {r : Read α} {bytes : List UInt8} {a : α} (hr : Yields r bytes a) (f : α → β) :
    Yields (do return f (← r)) bytes (f a) :=
  hr.last (pure (f a))

theorem position {f : Nat → Read α} {bytes : List UInt8} {a : α}
    (h : ∀ pos, Yields (f pos) bytes a) : Yields (position >>= f) bytes a :=
  fun pos rest => h pos pos rest

end Yields

namespace TooDeep

theorem bind {r : Read α} {bytes : List UInt8} (h : TooDeep r bytes) (f : α → Read β) :
    TooDeep (r >>= f) bytes := by
  intro pos rest
  obtain ⟨place, c, h⟩ := h pos rest
  exact ⟨place, c, by rw [bind_apply, h]⟩

theorem after {r : Read α} {f : α → Read β} {bytes more : List UInt8} {a : α}
    (hr : Yields r bytes a) (hf : TooDeep (f a) more) : TooDeep (r >>= f) (bytes ++ more) := by
  intro pos rest
  obtain ⟨place, c, h⟩ := hf (pos + bytes.length) rest
  exact ⟨place, c, by rw [bind_apply, List.append_assoc, hr]; exact h⟩

theorem position {f : Nat → Read α} {bytes : List UInt8} (h : ∀ pos, TooDeep (f pos) bytes) :
    TooDeep (position >>= f) bytes :=
  fun pos rest => h pos pos rest

theorem append {r : Read α} {bytes : List UInt8} (h : TooDeep r bytes) (more : List UInt8) :
    TooDeep r (bytes ++ more) := by
  intro pos rest
  rw [List.append_assoc]
  exact h pos (more ++ rest)

end TooDeep

theorem yields_take {n : Nat} {bytes : List UInt8} (h : bytes.length = n) :
    Yields (take n) bytes bytes := by
  intro pos rest
  subst h
  simp [take]

theorem yields_unsigned {w n : Nat} (h : n < Nat.pow 256 w) :
    Yields (unsigned w) (Bytes.bigEndian w n) n := by
  have h' := (yields_take (Bytes.bigEndian_length w n)).map Bytes.ofBigEndian
  rwa [Bytes.ofBigEndian_bigEndian h] at h'

theorem yields_byte (b : UInt8) : Yields (unsigned 1) [b] b.toNat := by
  rw [← Bytes.bigEndian_one]
  exact yields_unsigned b.toNat_lt

theorem yields_tag (t : Tag) : Yields tag [t.toByte] t := by
  refine .position fun pos => (yields_byte t.toByte).last ?_
  simp only [Nat.toUInt8, UInt8.ofNat_toNat, Tag.ofByte?_toByte]
  exact .pure t

theorem yields_length {n : Nat} (h : n ≤ maxCount) (pos : Nat) :
    Yields (length pos) (Bytes.bigEndian 4 n) n := by
  have hu : Yields (unsigned 4) (Bytes.bigEndian 4 n) n :=
    yields_unsigned (Nat.lt_of_le_of_lt h (by decide))
  unfold maxCount at h
  have hn : n.toUInt32.toInt32.toInt = n := by
    simp only [Nat.toUInt32, UInt32.toInt32_ofNat']
    exact Int32.toInt_ofNat_of_lt (by omega)
  refine hu.last ?_
  simp only [hn]
  rw [if_neg (by omega)]
  exact .pure n

theorem yields_millis {ms : Int} (hlow : -9223372036854775808 ≤ ms)
    (hhigh : ms < 9223372036854775808) : ∃ n, n.toInt = ms ∧ Yields millis (millisBytes ms) n := by
  refine ⟨Int64.ofInt ms, Int64.toInt_ofInt_of_le hlow hhigh, ?_⟩
  have h : Yields (unsigned 8) (millisBytes ms) (Int64.ofInt ms).toUInt64.toNat :=
    yields_unsigned (UInt64.toNat_lt _)
  have h' := h.map fun n => n.toUInt64.toInt64
  have hback : (Int64.ofInt ms).toUInt64.toNat.toUInt64.toInt64 = Int64.ofInt ms := by
    simp [Nat.toUInt64]
  rwa [hback] at h'

end Wire

end PathTemplate
