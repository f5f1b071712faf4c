import Mathlib.Algebra.Order.Ring.Nat
import PathTemplate.Proofs.Outcome
import PathTemplate.Proofs.Wire.ModifiedUtf8

namespace PathTemplate.Wire.ModifiedUtf8

/-- Bytes that split into groups, one for each unit. -/
inductive Spells : List UInt8 → List Nat → Prop where
  | nil : Spells [] []
  | one {a : UInt8} {bytes : List UInt8} {units : List Nat} (ha : a < 0x80)
      (rest : Spells bytes units) : Spells (a :: bytes) (a.toNat :: units)
  | two {a b : UInt8} {bytes : List UInt8} {units : List Nat} (ha : a &&& 0xE0 == 0xC0)
      (hb : isContinuation b) (rest : Spells bytes units) :
      Spells (a :: b :: bytes) (twoUnit a b :: units)
  | three {a b c : UInt8} {bytes : List UInt8} {units : List Nat} (ha : a &&& 0xF0 == 0xE0)
      (hb : isContinuation b) (hc : isContinuation c) (rest : Spells bytes units) :
      Spells (a :: b :: c :: bytes) (threeUnit a b c :: units)

theorem spells_of_unitsOnto {pos : Nat} {out units : List Nat} {bytes : List UInt8}
    (h : unitsOnto pos out bytes = .ok units) :
    ∃ more, units = out.reverse ++ more ∧ Spells bytes more := by
  fun_induction unitsOnto pos out bytes with
  | case1 =>
    cases h
    exact ⟨[], by simp, .nil⟩
  | case2 pos out a rest ha ih =>
    obtain ⟨more, rfl, hs⟩ := ih h
    exact ⟨_, by simp, .one ha hs⟩
  | case4 pos out a _ ha b rest hb ih =>
    obtain ⟨more, rfl, hs⟩ := ih h
    exact ⟨_, by simp, .two ha hb hs⟩
  | case8 pos out a _ _ ha b hb c rest hc ih =>
    obtain ⟨more, rfl, hs⟩ := ih h
    exact ⟨_, by simp, .three ha hb hc hs⟩
  | _ => cases h

def groupWidth (u : Nat) : Nat := if u < 0x80 then 1 else if u < 0x800 then 2 else 3

theorem mask_lt (a : UInt8) {m : UInt8} {k : Nat} (h : m.toNat < 2 ^ k) :
    (a &&& m).toNat < 2 ^ k := by
  rw [UInt8.toNat_and]
  exact Nat.and_lt_two_pow _ h

theorem twoUnit_lt (a b : UInt8) : twoUnit a b < 0x800 := by
  have ha : (a &&& 0x1F).toNat < 2 ^ 5 := mask_lt a (by decide)
  have hb : (b &&& 0x3F).toNat < 2 ^ 6 := mask_lt b (by decide)
  unfold twoUnit
  omega

theorem threeUnit_lt (a b c : UInt8) : threeUnit a b c < 0x10000 := by
  have ha : (a &&& 0x0F).toNat < 2 ^ 4 := mask_lt a (by decide)
  have hb : (b &&& 0x3F).toNat < 2 ^ 6 := mask_lt b (by decide)
  have hc : (c &&& 0x3F).toNat < 2 ^ 6 := mask_lt c (by decide)
  unfold threeUnit
  omega

theorem Spells.unit_lt {bytes : List UInt8} {units : List Nat} (h : Spells bytes units) :
    ∀ u ∈ units, u < 0x10000 := by
  induction h with
  | nil => simp
  | @one a _ _ ha _ ih =>
    have := a.toNat_lt
    exact List.forall_mem_cons.mpr ⟨by omega, ih⟩
  | @two a b _ _ _ _ _ ih =>
    have := twoUnit_lt a b
    exact List.forall_mem_cons.mpr ⟨by omega, ih⟩
  | @three a b c _ _ _ _ _ _ ih => exact List.forall_mem_cons.mpr ⟨threeUnit_lt a b c, ih⟩

theorem Spells.width_le {bytes : List UInt8} {units : List Nat} (h : Spells bytes units) :
    (units.map groupWidth).sum ≤ bytes.length := by
  induction h with
  | nil => simp
  | @one a _ _ ha _ ih =>
    have hw : groupWidth a.toNat = 1 := if_pos (UInt8.lt_iff_toNat_lt.mp ha)
    simp only [List.map_cons, List.sum_cons, List.length_cons]
    omega
  | @two a b _ _ _ _ _ ih =>
    have hw : groupWidth (twoUnit a b) ≤ 2 := by
      have := twoUnit_lt a b
      unfold groupWidth
      rw [if_pos this]
      split <;> decide
    simp only [List.map_cons, List.sum_cons, List.length_cons]
    omega
  | @three a b c _ _ _ _ _ _ ih =>
    have hw : groupWidth (threeUnit a b c) ≤ 3 := by
      unfold groupWidth
      split
      · decide
      · split <;> decide
    simp only [List.map_cons, List.sum_cons, List.length_cons]
    omega

theorem toNat_ofNat {n : Nat} (h : n.isValidChar) : (Char.ofNat n).toNat = n := by
  rw [Char.ofNat, dif_pos h]
  rfl

theorem unitsOf_ofNat {u : Nat} (hu : u < 0x10000) (hs : u < 0xD800 ∨ 0xDFFF < u) :
    unitsOf (Char.ofNat u) = [u] := by
  have hvalid : u.isValidChar := hs.imp id fun h => ⟨h, by omega⟩
  have hn : (Char.ofNat u).toNat = u := toNat_ofNat hvalid
  rw [unitsOf, hn, if_pos hu]

theorem unitsOf_pair {u v : Nat} (hu : 0xD800 ≤ u ∧ u < 0xDC00) (hv : 0xDC00 ≤ v ∧ v < 0xE000) :
    unitsOf (Char.ofNat (0x10000 + (u - 0xD800) * 0x400 + (v - 0xDC00))) = [u, v] := by
  have hvalid : (0x10000 + (u - 0xD800) * 0x400 + (v - 0xDC00)).isValidChar := by
    refine .inr ⟨?_, ?_⟩ <;> omega
  have hhigh : 0xD800 + (0x10000 + (u - 0xD800) * 0x400 + (v - 0xDC00) - 0x10000) / 0x400 = u := by
    omega
  have hlow : 0xDC00 + (0x10000 + (u - 0xD800) * 0x400 + (v - 0xDC00) - 0x10000) % 0x400 = v := by
    omega
  simp only [unitsOf, toNat_ofNat hvalid, hhigh, hlow]
  exact if_neg (by omega)

theorem units_of_charsOnto {out cs : List Char} {units : List Nat} (hu : ∀ u ∈ units, u < 0x10000)
    (h : charsOnto out units = some cs) :
    ∃ more, cs = out.reverse ++ more ∧ units = more.flatMap unitsOf := by
  fun_induction charsOnto out units with
  | case1 out =>
    cases h
    exact ⟨[], by simp⟩
  | case3 out u hhigh v rest hlow ih =>
    obtain ⟨more, rfl, rfl⟩ := ih (fun w hw => hu w (by simp [hw])) h
    simp only [isHighSurrogate, isLowSurrogate, Bool.and_eq_true, decide_eq_true_eq] at hhigh hlow
    refine ⟨Char.ofNat (0x10000 + (u - 0xD800) * 0x400 + (v - 0xDC00)) :: more, by simp, ?_⟩
    rw [List.flatMap_cons, unitsOf_pair hhigh hlow]
    rfl
  | case6 out u rest hhigh hlow ih =>
    obtain ⟨more, rfl, rfl⟩ := ih (fun w hw => hu w (by simp [hw])) h
    simp only [isHighSurrogate, isLowSurrogate, Bool.and_eq_true, decide_eq_true_eq] at hhigh hlow
    have hplain := unitsOf_ofNat (hu u List.mem_cons_self) (by omega)
    exact ⟨Char.ofNat u :: more, by simp, by rw [List.flatMap_cons, hplain]; rfl⟩
  | _ => cases h

theorem charWidth_eq (c : Char) :
    charWidth c = ((unitsOf c).map groupWidth).sum + [c].count '\x00' := by
  by_cases h0 : c.toNat = 0
  · obtain rfl : c = '\x00' := Char.toNat_inj.mp h0
    decide
  · have hne : c ≠ '\x00' := by
      rintro rfl
      exact h0 rfl
    have hcount : [c].count '\x00' = 0 := List.count_eq_zero.mpr (by simpa using hne.symm)
    have hvalid := toNat_valid c
    rw [hcount, charWidth, if_neg h0]
    by_cases hbmp : c.toNat < 0x10000
    · have hunits : unitsOf c = [c.toNat] := if_pos hbmp
      simp [hunits, groupWidth, hbmp]
    · have hunits : unitsOf c = [_, _] := if_neg hbmp
      have hw : ∀ n, groupWidth (0xD800 + n) = 3 := fun n => by
        rw [groupWidth, if_neg (by omega), if_neg (by omega)]
      have hw' : ∀ n, groupWidth (0xDC00 + n) = 3 := fun n => by
        rw [groupWidth, if_neg (by omega), if_neg (by omega)]
      rw [hunits, if_neg (by omega), if_neg (by omega), if_neg hbmp]
      simp [hw, hw']

theorem encodedLength_eq_widths (cs : List Char) :
    encodedLength cs = ((cs.flatMap unitsOf).map groupWidth).sum + cs.count '\x00' := by
  induction cs with
  | nil => rfl
  | cons c cs ih =>
    have hcons : encodedLength (c :: cs) = charWidth c + encodedLength cs := by
      simp [encodedLength_eq, encode, encodeChar_length]
    rw [hcons, charWidth_eq, ih, List.flatMap_cons, List.map_append, List.sum_append,
      List.count_cons, List.count_cons, List.count_nil]
    omega

/-- A text that was read takes at most a byte more for each zero character when it is written. -/
theorem encodedLength_le_of_decode {bytes : List UInt8} {cs : List Char}
    (h : decode bytes = .ok cs) : encodedLength cs ≤ bytes.length + cs.count '\x00' := by
  rw [decode_eq_decodeGroups, decodeGroups, bind_eq_ok] at h
  obtain ⟨units, hunits, h⟩ := h
  obtain ⟨units, rfl, hspells⟩ := spells_of_unitsOnto hunits
  split at h
  next cs' hcs =>
    cases h
    obtain ⟨more, rfl, rfl⟩ := units_of_charsOnto hspells.unit_lt hcs
    have := hspells.width_le
    rw [encodedLength_eq_widths]
    simpa using this
  next => cases h

theorem decode_zeros (n : Nat) :
    decode (List.replicate n 0) = .ok (List.replicate n '\x00') := by
  have hbytes : ∀ b ∈ List.replicate n (0 : UInt8), b < 0x80 := by simp [List.mem_replicate]
  have hunits : ∀ u ∈ List.replicate n 0, u < 0x80 := by simp [List.mem_replicate]
  simp [decode_eq_decodeGroups, decodeGroups, unitsOnto_plain hbytes, charsOnto_plain hunits, bind,
    Except.bind]

theorem encodedLength_zeros (n : Nat) : encodedLength (List.replicate n '\x00') = 2 * n := by
  have hunits : unitsOf '\x00' = [0] := rfl
  simp [encodedLength_eq_widths, List.flatMap_replicate, hunits, groupWidth]
  omega

end PathTemplate.Wire.ModifiedUtf8
