import Mathlib.Data.List.Forall2
import PathTemplate.Proofs.Wire.Spelling

namespace PathTemplate.Wire.ModifiedUtf8

/-- The bits of a unit, cut into pieces behind the marks of their bytes. -/
inductive Group : List UInt8 → Nat → Prop where
  | one {x : Nat} (hx : x < 128) : Group [x.toUInt8] x
  | two {x y : Nat} (hx : x < 32) (hy : y < 64) :
      Group [(0b11000000 + x).toUInt8, (0b10000000 + y).toUInt8] (x * 64 + y)
  | three {x y z : Nat} (hx : x < 16) (hy : y < 64) (hz : z < 64) :
      Group [(0b11100000 + x).toUInt8, (0b10000000 + y).toUInt8, (0b10000000 + z).toUInt8]
        (x * 4096 + y * 64 + z)

inductive Utf16 : List Nat → List Char → Prop where
  | nil : Utf16 [] []
  | alone {c : Char} {units : List Nat} {cs : List Char} (hc : c.toNat < 0x10000)
      (rest : Utf16 units cs) : Utf16 (c.toNat :: units) (c :: cs)
  | pair {c : Char} {u v : Nat} {units : List Nat} {cs : List Char}
      (hu : 0xD800 ≤ u ∧ u < 0xDC00) (hv : 0xDC00 ≤ v ∧ v < 0xE000)
      (hc : c.toNat = 0x10000 + (u - 0xD800) * 0x400 + (v - 0xDC00)) (rest : Utf16 units cs) :
      Utf16 (u :: v :: units) (c :: cs)

theorem eq_mark_add (b : UInt8) :
    (b &&& 0xE0 == 0xC0 → b = (0xC0 + (b &&& 0x1F).toNat).toUInt8) ∧
    (b &&& 0xF0 == 0xE0 → b = (0xE0 + (b &&& 0x0F).toNat).toUInt8) ∧
    (isContinuation b → b = (0x80 + (b &&& 0x3F).toNat).toUInt8) := by
  obtain ⟨k, rfl⟩ : ∃ k : Fin 256, b = UInt8.ofNat k.val := ⟨⟨b.toNat, b.toNat_lt⟩, by simp⟩
  revert k
  decide +kernel

theorem Spells.groups {bytes : List UInt8} {units : List Nat} (h : Spells bytes units) :
    ∃ groups, bytes = groups.flatten ∧ List.Forall₂ Group groups units := by
  have low : ∀ b : UInt8, (b &&& 0x3F).toNat < 64 := fun b => mask_lt b (k := 6) (by decide)
  induction h with
  | nil => exact ⟨[], rfl, .nil⟩
  | @one a _ _ ha _ ih =>
    obtain ⟨groups, rfl, hgroups⟩ := ih
    have hone : Group [a.toNat.toUInt8] a.toNat := .one (UInt8.lt_iff_toNat_lt.mp ha)
    exact ⟨_ :: groups, by simp, .cons hone hgroups⟩
  | @two a b _ _ ha hb _ ih =>
    obtain ⟨groups, rfl, hgroups⟩ := ih
    have htwo := Group.two (mask_lt a (m := 0x1F) (k := 5) (by decide)) (low b)
    rw [← (eq_mark_add a).1 ha, ← (eq_mark_add b).2.2 hb] at htwo
    exact ⟨_ :: groups, by simp, .cons htwo hgroups⟩
  | @three a b c _ _ ha hb hc _ ih =>
    obtain ⟨groups, rfl, hgroups⟩ := ih
    have hthree := Group.three (mask_lt a (m := 0x0F) (k := 4) (by decide)) (low b) (low c)
    rw [← (eq_mark_add a).2.1 ha, ← (eq_mark_add b).2.2 hb, ← (eq_mark_add c).2.2 hc] at hthree
    exact ⟨_ :: groups, by simp, .cons hthree hgroups⟩

theorem unitsOnto_group {group : List UInt8} {u : Nat} (h : Group group u) (pos : Nat)
    (out : List Nat) (rest : List UInt8) :
    unitsOnto pos out (group ++ rest) = unitsOnto (pos + group.length) (u :: out) rest := by
  cases h with
  | one hx => exact unitsOnto_one hx pos out rest
  | two hx hy =>
    obtain ⟨hsmall, hlead, hbits⟩ := lead_two hx
    obtain ⟨hcont, hlow⟩ := continuation hy
    simp only [List.cons_append, List.nil_append, List.length_cons, List.length_nil]
    rw [unitsOnto.eq_def]
    simp only [hsmall, hlead, hcont, if_true, if_false, twoUnit, hbits, hlow]
  | three hx hy hz =>
    obtain ⟨hsmall, hnot, hlead, hbits⟩ := lead_three hx
    obtain ⟨hcont, hmid⟩ := continuation hy
    obtain ⟨hcont', hlow⟩ := continuation hz
    simp only [List.cons_append, List.nil_append, List.length_cons, List.length_nil]
    rw [unitsOnto.eq_def]
    simp only [hsmall, hnot, hlead, hcont, hcont', if_true, if_false, Bool.false_eq_true, threeUnit,
      hbits, hmid, hlow]

theorem unitsOnto_groups {groups : List (List UInt8)} {units : List Nat}
    (h : List.Forall₂ Group groups units) (pos : Nat) (out : List Nat) :
    unitsOnto pos out groups.flatten = .ok (out.reverse ++ units) := by
  induction h generalizing pos out with
  | nil => simp [unitsOnto]
  | cons hgroup _ ih => rw [List.flatten_cons, unitsOnto_group hgroup, ih]; simp

theorem Utf16.units_eq {units : List Nat} {cs : List Char} (h : Utf16 units cs) :
    units = cs.flatMap unitsOf := by
  induction h with
  | nil => rfl
  | @alone c _ _ hc _ ih =>
    have hunits : unitsOf c = [c.toNat] := if_pos hc
    rw [List.flatMap_cons, hunits, ih]
    rfl
  | @pair c u v _ _ hu hv hc _ ih =>
    have hpair := unitsOf_pair hu hv
    rw [← hc, Char.ofNat_toNat] at hpair
    rw [List.flatMap_cons, hpair, ih]
    rfl

theorem utf16_units (cs : List Char) : Utf16 (cs.flatMap unitsOf) cs := by
  induction cs with
  | nil => exact .nil
  | cons c cs ih =>
    have hvalid := toNat_valid c
    rw [List.flatMap_cons]
    by_cases hc : c.toNat < 0x10000
    · rw [show unitsOf c = [c.toNat] from if_pos hc]
      exact .alone hc ih
    · rw [show unitsOf c = [_, _] from if_neg hc]
      exact .pair (by omega) (by omega) (by omega) ih

theorem toUInt8_ne_zero {n : Nat} (hpos : 0 < n) (hlt : n < 256) : 0 ≠ n.toUInt8 := by
  intro hzero
  have := congrArg UInt8.toNat hzero
  simp only [Nat.toUInt8, UInt8.toNat_ofNat', UInt8.toNat_zero] at this
  omega

theorem twoBytes_ne_zero (n : Nat) : 0 ∉ twoBytes n := by
  simp only [twoBytes, List.mem_cons, List.not_mem_nil, or_false, not_or]
  exact ⟨toUInt8_ne_zero (by omega) (by omega), toUInt8_ne_zero (by omega) (by omega)⟩

theorem threeBytes_ne_zero (n : Nat) : 0 ∉ threeBytes n := by
  simp only [threeBytes, List.mem_cons, List.not_mem_nil, or_false, not_or]
  exact ⟨toUInt8_ne_zero (by omega) (by omega), toUInt8_ne_zero (by omega) (by omega),
    toUInt8_ne_zero (by omega) (by omega)⟩

theorem encodeChar_ne_zero (c : Char) : 0 ∉ encodeChar c := by
  unfold encodeChar
  dsimp only
  split
  · exact twoBytes_ne_zero 0
  split
  · rw [List.mem_singleton]
    exact toUInt8_ne_zero (by omega) (by omega)
  split
  · exact twoBytes_ne_zero _
  split
  · exact threeBytes_ne_zero _
  · rw [List.mem_append, not_or]
    exact ⟨threeBytes_ne_zero _, threeBytes_ne_zero _⟩

theorem encode_ne_zero (cs : List Char) : 0 ∉ encode cs := by
  intro hmem
  obtain ⟨c, -, hc⟩ := List.mem_flatMap.mp hmem
  exact encodeChar_ne_zero c hc

theorem decodeGroups_eq_ok {bytes : List UInt8} {cs : List Char} :
    decodeGroups bytes = .ok cs ↔ ∃ groups units, bytes = groups.flatten ∧
      List.Forall₂ Group groups units ∧ Utf16 units cs := by
  unfold decodeGroups
  constructor
  · intro h
    obtain ⟨units, hunits, h⟩ := bind_eq_ok.mp h
    obtain ⟨units, rfl, hspells⟩ := spells_of_unitsOnto hunits
    obtain ⟨groups, hbytes, hgroups⟩ := hspells.groups
    refine ⟨groups, units, hbytes, hgroups, ?_⟩
    split at h
    next hcs =>
      cases h
      obtain ⟨cs, rfl, rfl⟩ := units_of_charsOnto hspells.unit_lt hcs
      exact utf16_units cs
    next => cases h
  · rintro ⟨groups, units, rfl, hgroups, hutf⟩
    rw [unitsOnto_groups hgroups, hutf.units_eq]
    simp [charsOnto_units, bind, Except.bind]

/-- A text comes back from its bytes, which have the announced length and no zero among them; and
bytes are read as a text exactly when they are groups for its UTF-16 units. That plain bytes are
read as they stand changes no answer. -/
theorem reads_grouped_units (cs : List Char) (bytes : List UInt8) :
    (decode (encode cs) = .ok cs ∧ (encode cs).length = encodedLength cs ∧ 0 ∉ encode cs) ∧
    (decode bytes = .ok cs ↔ ∃ groups units, bytes = groups.flatten ∧
      List.Forall₂ Group groups units ∧ Utf16 units cs) ∧
    decode bytes = decodeGroups bytes := by
  refine ⟨⟨decode_encode cs, (encodedLength_eq cs).symm, encode_ne_zero cs⟩, ?_,
    decode_eq_decodeGroups bytes⟩
  rw [decode_eq_decodeGroups]
  exact decodeGroups_eq_ok

end PathTemplate.Wire.ModifiedUtf8
