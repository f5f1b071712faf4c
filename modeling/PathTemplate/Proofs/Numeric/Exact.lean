import Mathlib.Algebra.Order.Field.Power
import Mathlib.Algebra.Order.Field.Rat
import Mathlib.Tactic.Linarith
import Mathlib.Tactic.Positivity
import Mathlib.Tactic.Ring
import PathTemplate.Numeric.Decimal

/-!
Rounding leaves alone what needs none. A ratio that a format can represent is turned into the bits
of just that number, and a decimal that is exact is read as the number that it was made from. Also:
reading a decimal gives a number, if only an infinite one.
-/

namespace PathTemplate.Numeric

namespace Format

theorem two_zpow_eq (k : Int) : (2 : ℚ) ^ k = 2 ^ k.toNat / 2 ^ (-k).toNat := by
  rcases Int.le_total 0 k with hk | hk
  · have hneg : (-k).toNat = 0 := by omega
    rw [hneg, pow_zero, div_one, ← zpow_natCast, Int.toNat_of_nonneg hk]
  · have hpos : k.toNat = 0 := by omega
    rw [hpos, pow_zero, one_div, ← zpow_natCast, Int.toNat_of_nonneg (by omega), ← zpow_neg,
      neg_neg]

theorem scaled_lt_iff (num den : Nat) (k : Int) :
    num * Nat.pow 2 (-k).toNat < den * Nat.pow 2 k.toNat ↔ (num : ℚ) < den * 2 ^ k := by
  have hpos : (0 : ℚ) < 2 ^ (-k).toNat := by positivity
  rw [two_zpow_eq, ← mul_div_assoc, lt_div_iff₀ hpos]
  exact_mod_cast Iff.rfl

theorem floorLog2_spec {num den : Nat} (hnum : num ≠ 0) (hden : den ≠ 0) :
    den * (2 : ℚ) ^ floorLog2 num den ≤ num ∧ (num : ℚ) < den * 2 ^ (floorLog2 num den + 1) := by
  have hden0 : (0 : ℚ) < den := by exact_mod_cast Nat.pos_of_ne_zero hden
  -- The logarithms bound the ratio from both sides, up to a factor of two.
  have hnum' : (2 : ℚ) ^ (num.log2 : Int) ≤ num ∧ (num : ℚ) < 2 ^ ((num.log2 : Int) + 1) := by
    exact ⟨by exact_mod_cast Nat.log2_self_le hnum, by exact_mod_cast Nat.lt_log2_self⟩
  have hden' : (2 : ℚ) ^ (den.log2 : Int) ≤ den ∧ (den : ℚ) < 2 ^ ((den.log2 : Int) + 1) := by
    exact ⟨by exact_mod_cast Nat.log2_self_le hden, by exact_mod_cast Nat.lt_log2_self⟩
  unfold floorLog2
  dsimp only
  generalize hk : (num.log2 : Int) - den.log2 = k
  have hlow : den * (2 : ℚ) ^ (k - 1) ≤ num := by
    have hsplit : (2 : ℚ) ^ (num.log2 : Int) = 2 ^ ((den.log2 : Int) + 1) * 2 ^ (k - 1) := by
      rw [← zpow_add₀ (by norm_num)]
      congr 1
      omega
    have hpos : (0 : ℚ) < 2 ^ (k - 1) := by positivity
    nlinarith [hnum'.1, hden'.2]
  have hhigh : (num : ℚ) < den * 2 ^ (k + 1) := by
    have hsplit : (2 : ℚ) ^ ((num.log2 : Int) + 1) = 2 ^ (den.log2 : Int) * 2 ^ (k + 1) := by
      rw [← zpow_add₀ (by norm_num)]
      congr 1
      omega
    have hpos : (0 : ℚ) < 2 ^ (k + 1) := by positivity
    nlinarith [hnum'.2, hden'.1]
  split
  next hlt =>
    rw [scaled_lt_iff] at hlt
    exact ⟨hlow, by simpa using hlt⟩
  next hge =>
    rw [scaled_lt_iff] at hge
    exact ⟨not_lt.mp hge, hhigh⟩

theorem roundHalfEven_mul (m : Nat) {den : Nat} (hden : 0 < den) :
    roundHalfEven (m * den) den = m := by
  simp [roundHalfEven, Nat.mul_div_cancel m hden, hden]

def magnitude (f : Format) (m : Nat) (q : Int) : Nat :=
  if m < Nat.pow 2 f.fractionBits then m
  else ((q - f.minExponent).toNat + 1) * Nat.pow 2 f.fractionBits +
    (m - Nat.pow 2 f.fractionBits)

/-- Significands with their exponents as a format has them: all bits are used unless the exponent is
the smallest one. -/
structure Representable (f : Format) (m : Nat) (q : Int) : Prop where
  fits : m < Nat.pow 2 (f.fractionBits + 1)
  least : f.minExponent ≤ q
  normal : q = f.minExponent ∨ Nat.pow 2 f.fractionBits ≤ m
  finite : f.magnitude m q < f.infinityBits

theorem ofRatio_exact {f : Format} {m : Nat} {q : Int} (h : f.Representable m q) (hm : m ≠ 0)
    {num den : Nat} (hden : den ≠ 0)
    (hval : num * Nat.pow 2 (-q).toNat = m * (den * Nat.pow 2 q.toNat)) (s : Bool) :
    f.ofRatio s num den = f.withSign s (f.magnitude m q) := by
  have hden0 : (0 : ℚ) < den := by exact_mod_cast Nat.pos_of_ne_zero hden
  have hm0 : (0 : ℚ) < m := by exact_mod_cast Nat.pos_of_ne_zero hm
  have hratio : (num : ℚ) = den * (m * 2 ^ q) := by
    have hcast : (num : ℚ) * 2 ^ (-q).toNat = m * (den * 2 ^ q.toNat) := by exact_mod_cast hval
    have hpos : (2 : ℚ) ^ (-q).toNat ≠ 0 := by positivity
    rw [two_zpow_eq, ← mul_div_assoc, ← mul_div_assoc, eq_div_iff hpos, hcast]
    ring
  have hnum : num ≠ 0 := by
    rintro rfl
    have hpos : (0 : ℚ) < den * (m * 2 ^ q) := by positivity
    rw [← hratio] at hpos
    simp at hpos
  obtain ⟨hlow, hhigh⟩ := floorLog2_spec hnum hden
  rw [hratio, mul_le_mul_iff_right₀ hden0] at hlow
  rw [hratio, mul_lt_mul_iff_right₀ hden0] at hhigh
  have hfits : (m : ℚ) < 2 ^ (f.fractionBits + 1) := by exact_mod_cast h.fits
  -- The exponent that is found is that of the number.
  have hexp : max f.minExponent (floorLog2 num den - f.fractionBits) = q := by
    have hup : floorLog2 num den < f.fractionBits + 1 + q := by
      refine (zpow_lt_zpow_iff_right₀ (by norm_num : (1 : ℚ) < 2)).mp (lt_of_le_of_lt hlow ?_)
      rw [zpow_add₀ (by norm_num)]
      exact mul_lt_mul_of_pos_right (by exact_mod_cast hfits) (by positivity)
    have hleast := h.least
    rcases h.normal with hq | hq
    · omega
    · have hq' : (2 : ℚ) ^ f.fractionBits ≤ m := by exact_mod_cast hq
      have hdown : (f.fractionBits : Int) + q < floorLog2 num den + 1 := by
        refine (zpow_lt_zpow_iff_right₀ (by norm_num : (1 : ℚ) < 2)).mp (lt_of_le_of_lt ?_ hhigh)
        rw [zpow_add₀ (by norm_num)]
        exact mul_le_mul_of_nonneg_right (by exact_mod_cast hq') (by positivity)
      omega
  have hpos : 0 < den * Nat.pow 2 q.toNat :=
    Nat.mul_pos (Nat.pos_of_ne_zero hden) (Nat.two_pow_pos _)
  unfold ofRatio
  rw [if_neg hnum]
  dsimp only
  rw [hexp, hval, roundHalfEven_mul m hpos]
  have hfinite := h.finite
  unfold magnitude at hfinite ⊢
  rw [Nat.min_eq_left (Nat.le_of_lt hfinite)]

end Format

namespace Binary64

open Format

theorem double_decode (bits : Nat) : double.decode bits =
    if bits / 4503599627370496 % 2048 = 2047 then
      if bits % 4503599627370496 = 0 then .infinite (bits / 9223372036854775808 % 2 == 1)
      else .notNumber (bits / 9223372036854775808 % 2 == 1) (bits % 4503599627370496)
    else if bits / 4503599627370496 % 2048 = 0 then
      .finite (bits / 9223372036854775808 % 2 == 1) (bits % 4503599627370496) (-1074)
    else .finite (bits / 9223372036854775808 % 2 == 1)
      (4503599627370496 + bits % 4503599627370496)
      (-1074 + (bits / 4503599627370496 % 2048 - 1 : Nat)) := rfl

theorem double_magnitude (m : Nat) (q : Int) : double.magnitude m q =
    if m < 4503599627370496 then m
    else ((q + 1074).toNat + 1) * 4503599627370496 + (m - 4503599627370496) := rfl

theorem double_withSign (s : Bool) (n : Nat) :
    double.withSign s n = if s then 9223372036854775808 + n else n := rfl

theorem double_representable {m : Nat} {q : Int} (hfits : m < 9007199254740992)
    (hleast : -1074 ≤ q) (hnormal : q = -1074 ∨ 4503599627370496 ≤ m)
    (hfinite : double.magnitude m q < 9218868437227405312) : double.Representable m q :=
  ⟨hfits, hleast, hnormal, hfinite⟩

theorem bits_eq_withSign {bits n : Nat} (hlt : bits < 18446744073709551616)
    (h : bits % 9223372036854775808 = n) :
    bits = double.withSign (bits / 9223372036854775808 % 2 == 1) n := by
  rw [double_withSign]
  by_cases hs : bits / 9223372036854775808 % 2 = 1
  · simp only [hs, beq_self_eq_true, if_true]
    omega
  · simp only [beq_eq_false_iff_ne.mpr hs, Bool.false_eq_true, if_false]
    omega

theorem bits_of_finite {x : Binary64} {s : Bool} {m : Nat} {q : Int}
    (h : x.datum = .finite s m q) :
    double.Representable m q ∧ x.bits.toNat = double.withSign s (double.magnitude m q) := by
  have hlt : x.bits.toNat < 18446744073709551616 := x.bits.toNat_lt
  rw [datum, double_decode] at h
  generalize x.bits.toNat = bits at h hlt
  split at h
  · split at h <;> cases h
  next htop =>
    split at h
    next hzero =>
      cases h
      have hmag : double.magnitude (bits % 4503599627370496) (-1074) =
          bits % 9223372036854775808 := by
        rw [double_magnitude]
        split <;> omega
      rw [hmag]
      refine ⟨double_representable (by omega) (by omega) (.inl rfl) ?_, bits_eq_withSign hlt rfl⟩
      omega
    next hzero =>
      cases h
      have hmag : double.magnitude (4503599627370496 + bits % 4503599627370496)
          (-1074 + (bits / 4503599627370496 % 2048 - 1 : Nat)) = bits % 9223372036854775808 := by
        rw [double_magnitude]
        split <;> omega
      rw [hmag]
      refine ⟨double_representable (by omega) (by omega) (.inr (by omega)) ?_,
        bits_eq_withSign hlt rfl⟩
      omega

theorem bits_of_infinite {x : Binary64} {s : Bool} (h : x.datum = .infinite s) :
    x = ofBits (double.withSign s double.infinityBits) := by
  have hlt : x.bits.toNat < 18446744073709551616 := x.bits.toNat_lt
  have hbits : x.bits.toNat = double.withSign s double.infinityBits := by
    rw [datum, double_decode] at h
    generalize x.bits.toNat = bits at h hlt
    split at h
    next htop =>
      split at h
      next hzero =>
        cases h
        refine bits_eq_withSign hlt ?_
        have hinf : double.infinityBits = 9218868437227405312 := rfl
        omega
      · cases h
    · split at h <;> cases h
  rw [← hbits]
  exact congrArg Binary64.mk (UInt64.ofNat_toNat).symm

theorem isNotNumber_ofBits {s : Bool} {n : Nat} (hn : n ≤ double.infinityBits) :
    (ofBits (double.withSign s n)).isNotNumber = false := by
  have hinf : double.infinityBits = 9218868437227405312 := rfl
  have hto : (ofBits (double.withSign s n)).bits.toNat = double.withSign s n := by
    refine UInt64.toNat_ofNat_of_lt' ?_
    rw [double_withSign]
    split <;> simp only [UInt64.size] <;> omega
  rw [isNotNumber, datum, hto, double_decode, double_withSign]
  cases s <;> simp only [Bool.false_eq_true, if_true, if_false] <;> split
  · rw [if_pos (by omega)]
    rfl
  · split <;> rfl
  · rw [if_pos (by omega)]
    rfl
  · split <;> rfl

theorem isNotNumber_ofDecimal (negative : Bool) (digits : Nat) (exponent : Int) :
    (ofDecimal negative digits exponent).isNotNumber = false := by
  unfold ofDecimal
  split
  · exact isNotNumber_ofBits (Nat.zero_le _)
  · split
    · exact isNotNumber_ofBits (Nat.le_refl _)
    · unfold ofRatio
      split
      · exact isNotNumber_ofBits (Nat.zero_le _)
      · exact isNotNumber_ofBits (Nat.min_le_right _ _)

/-- A finite number is read from the digits that write it out in full. -/
theorem ofDecimal_exact {x : Binary64} {s : Bool} {m : Nat} {q : Int}
    (h : x.datum = .finite s m q) :
    ofDecimal s (m * 2 ^ q.toNat * 5 ^ (-q).toNat) (-((-q).toNat : Int)) = x := by
  obtain ⟨hrep, hbits⟩ := bits_of_finite h
  have hx : ofBits (double.withSign s (double.magnitude m q)) = x := by
    rw [← hbits]
    exact congrArg Binary64.mk UInt64.ofNat_toNat
  by_cases hm : m = 0
  · subst hm
    have hzero : double.magnitude 0 q = 0 := rfl
    rw [hzero] at hx
    simpa [ofDecimal] using hx
  · have hleast : -1074 ≤ q := hrep.least
    have hne : m * 2 ^ q.toNat * 5 ^ (-q).toNat ≠ 0 := by positivity
    have hlog : 2 * (-q).toNat ≤ (m * 2 ^ q.toNat * 5 ^ (-q).toNat).log2 := by
      rw [Nat.le_log2 hne, Nat.pow_mul]
      calc (2 ^ 2) ^ (-q).toNat ≤ 5 ^ (-q).toNat := Nat.pow_le_pow_left (by decide) _
        _ ≤ m * 2 ^ q.toNat * 5 ^ (-q).toNat := Nat.le_mul_of_pos_left _ (by positivity)
    have hsmall : ¬ ((m * 2 ^ q.toNat * 5 ^ (-q).toNat = 0 ||
        (m * 2 ^ q.toNat * 5 ^ (-q).toNat).log2 + 3 * -((-q).toNat : Int) < -1200) = true) := by
      simp only [Bool.or_eq_true, decide_eq_true_eq, not_or, hne, not_false_eq_true, true_and]
      omega
    have hzero : (-((-q).toNat : Int)).toNat = 0 := by omega
    have hten : (- -((-q).toNat : Int)).toNat = (-q).toNat := by omega
    unfold ofDecimal
    rw [if_neg hsmall, if_neg (by omega), hzero, hten, ← hx]
    refine congrArg ofBits (ofRatio_exact hrep hm ?_ ?_ s)
    · exact (Nat.pow_pos (by decide)).ne'
    · have hsplit : 10 ^ (-q).toNat = 5 ^ (-q).toNat * 2 ^ (-q).toNat := Nat.mul_pow 5 2 _
      show m * 2 ^ q.toNat * 5 ^ (-q).toNat * 1 * 2 ^ (-q).toNat =
        m * (10 ^ (-q).toNat * 2 ^ q.toNat)
      rw [hsplit]
      ring

end Binary64

end PathTemplate.Numeric
