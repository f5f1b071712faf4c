import PathTemplate.Proofs.Numeric.Exact
import PathTemplate.Proofs.Template.Words

namespace PathTemplate.Template

open Numeric

namespace Cursor

def isNumberChar (x : Char) : Bool := x.isDigit || x = '.' || x = 'e' || x = 'E'

theorem sign_append (x : Char) (cs rest : List Char) (pos pos' : Nat) :
    ∃ negative stop stop' left, sign ⟨pos, x :: cs⟩ = (negative, ⟨stop, left⟩) ∧
      sign ⟨pos', x :: (cs ++ rest)⟩ = (negative, ⟨stop', left ++ rest⟩) := by
  by_cases hminus : x = '-'
  · subst hminus
    exact ⟨true, _, _, cs, rfl, rfl⟩
  · by_cases hplus : x = '+'
    · subst hplus
      exact ⟨false, _, _, cs, rfl, rfl⟩
    · refine ⟨false, pos, pos', x :: cs, ?_, ?_⟩ <;>
        (simp only [sign, peek_cons]; split <;> simp_all)

theorem fraction?_append {rest : List Char} (hrest : Stops isNumberChar rest) (cs : List Char)
    (pos pos' : Nat) :
    fraction? ⟨pos, cs⟩ = none ∧ fraction? ⟨pos', cs ++ rest⟩ = none ∨
      ∃ digits stop stop' left, fraction? ⟨pos, cs⟩ = some (digits, ⟨stop, left⟩) ∧
        fraction? ⟨pos', cs ++ rest⟩ = some (digits, ⟨stop', left ++ rest⟩) := by
  have hdigit : Stops Char.isDigit rest := hrest.mono fun x hx => by simp [isNumberChar, hx]
  match cs with
  | [] =>
    refine .inl ⟨rfl, ?_⟩
    cases rest with
    | nil => rfl
    | cons x rest =>
      have hx : x ≠ '.' := by
        rintro rfl
        exact absurd (stops_cons.mp hrest) (by decide)
      simp [fraction?, hx]
  | [x] =>
    refine .inl ⟨by simp [fraction?, peekNth], ?_⟩
    cases rest with
    | nil => simp [fraction?, peekNth]
    | cons y rest => simp [fraction?, peekNth, stops_cons.mp hdigit]
  | x :: y :: cs =>
    by_cases hx : x = '.' ∧ y.isDigit
    · obtain ⟨rfl, hy⟩ := hx
      refine .inr ?_
      simp only [fraction?, List.cons_append, peek_cons, peekNth, List.getElem?_cons_succ,
        List.getElem?_cons_zero, Option.any_some, hy, decide_true, Bool.and_self, if_true,
        next_cons, takeWhile_mk]
      rw [← List.cons_append, takeWhile_append_of_stops hdigit, dropWhile_append_of_stops hdigit]
      exact ⟨_, _, _, _, rfl, rfl⟩
    · refine .inl ⟨?_, ?_⟩ <;>
        simpa [fraction?, peekNth] using hx

theorem exponent?_append {rest : List Char} (hrest : Stops isNumberChar rest) (cs : List Char)
    (pos pos' : Nat) :
    exponent? ⟨pos, cs⟩ = none ∧ exponent? ⟨pos', cs ++ rest⟩ = none ∨
      (∃ negative after, exponent? ⟨pos, cs⟩ = some (negative, [], after)) ∨
      ∃ negative digits stop stop' left,
        exponent? ⟨pos, cs⟩ = some (negative, digits, ⟨stop, left⟩) ∧
        exponent? ⟨pos', cs ++ rest⟩ = some (negative, digits, ⟨stop', left ++ rest⟩) := by
  have hdigit : Stops Char.isDigit rest := hrest.mono fun x hx => by simp [isNumberChar, hx]
  match cs with
  | [] =>
    refine .inl ⟨rfl, ?_⟩
    cases rest with
    | nil => rfl
    | cons x rest =>
      have hx := stops_cons.mp hrest
      simp only [isNumberChar, Bool.or_eq_false_iff, decide_eq_false_iff_not] at hx
      simp [exponent?, hx.2, hx.1.2]
  | x :: cs =>
    by_cases hx : x = 'e' ∨ x = 'E'
    · match cs with
      | [] => exact .inr (.inl ⟨false, _, by simp [exponent?, hx, sign, peek, takeWhile]; rfl⟩)
      | y :: cs =>
        obtain ⟨negative, stop, stop', left, hs, hs'⟩ :=
          sign_append y cs rest (pos + x.utf8Size) (pos' + x.utf8Size)
        refine .inr (.inr ?_)
        simp only [exponent?, List.cons_append, peek_cons, Option.some.injEq, hx,
          decide_eq_true_eq, Bool.or_eq_true, if_true, next_cons, hs, hs', takeWhile_mk,
          takeWhile_append_of_stops hdigit, dropWhile_append_of_stops hdigit]
        exact ⟨_, _, _, _, _, rfl, rfl⟩
    · refine .inl ⟨?_, ?_⟩ <;> simp [exponent?, hx]

theorem atNumber_cons {x : Char} {cs : List Char} {pos : Nat} (h : atNumber ⟨pos, x :: cs⟩)
    (rest : List Char) (pos' : Nat) : atNumber ⟨pos', x :: (cs ++ rest)⟩ := by
  simp only [atNumber, peek_cons, peekNth, List.getElem?_cons_succ, Bool.or_eq_true] at h ⊢
  rcases h with h | h
  · exact .inl h
  · refine .inr ?_
    cases cs with
    | nil => simp at h
    | cons y cs => simpa using h

def valueBefore (value : Option Operand) (after : Cursor) (kind : ParseErrorKind) (span : Span) :
    Except ParseError (Operand × Cursor) :=
  match value with
  | some m => .ok (m, after)
  | none => fail kind span

/-- A number that is read from a text of its own is read also where something else follows. -/
theorem number_append {cs rest : List Char} {n : Operand} {pos stop : Nat}
    (h : number ⟨pos, cs⟩ = .ok (n, ⟨stop, []⟩)) (hrest : Stops isNumberChar rest) (pos' : Nat) :
    ∃ stop', number ⟨pos', cs ++ rest⟩ = .ok (n, ⟨stop', rest⟩) := by
  have hdigit : Stops Char.isDigit rest := hrest.mono fun x hx => by simp [isNumberChar, hx]
  -- Where the text of its own ends with a value, the longer one goes on with the rest.
  have hend : ∀ {value : Option Operand} {q q' : Nat} {left : List Char}
      {kind kind' : ParseErrorKind} {span span' : Span},
      valueBefore value ⟨q, left⟩ kind span = .ok (n, ⟨stop, []⟩) →
      ∃ stop' : Nat, valueBefore value ⟨q', left ++ rest⟩ kind' span' =
        .ok (n, ⟨stop', rest⟩) := by
    intro value q q' left kind kind' span span' hv
    cases value with
    | none => cases hv
    | some m =>
      cases hv
      exact ⟨q', rfl⟩
  cases cs with
  | nil => simp [number, atNumber, peek, expected, fail] at h
  | cons x cs =>
    by_cases hat : atNumber ⟨pos, x :: cs⟩
    · have hat' := atNumber_cons hat rest pos'
      obtain ⟨negative, p, p', body, hs, hs'⟩ := sign_append x cs rest pos pos'
      have hfraction := fraction?_append hrest (body.dropWhile Char.isDigit)
        (p + Text.byteLength (body.takeWhile Char.isDigit))
        (p' + Text.byteLength (body.takeWhile Char.isDigit))
      simp only [number, List.cons_append, hat, hat', hs, hs', takeWhile_mk,
        takeWhile_append_of_stops hdigit, dropWhile_append_of_stops hdigit, Bool.not_true,
        Bool.false_eq_true, if_false] at h ⊢
      rcases hfraction with ⟨hf, hf'⟩ | ⟨digits, q, q', left, hf, hf'⟩
      · simp only [hf, hf', Option.getD_none, Option.isSome_none] at h ⊢
        rcases exponent?_append hrest (body.dropWhile Char.isDigit)
            (p + Text.byteLength (body.takeWhile Char.isDigit))
            (p' + Text.byteLength (body.takeWhile Char.isDigit)) with
          ⟨he, he'⟩ | ⟨minus, after, he⟩ | ⟨minus, power, r, r', left, he, he'⟩
        · simp only [he, he'] at h ⊢
          exact hend h
        · simp [he, fail] at h
        · simp only [he, he'] at h ⊢
          exact hend h
      · simp only [hf, hf', Option.getD_some, Option.isSome_some] at h ⊢
        rcases exponent?_append hrest left q q' with
          ⟨he, he'⟩ | ⟨minus, after, he⟩ | ⟨minus, power, r, r', left', he, he'⟩
        · simp only [he, he', if_true] at h ⊢
          cases h
          exact ⟨q', rfl⟩
        · simp [he, fail] at h
        · simp only [he, he'] at h ⊢
          exact hend h
    · simp [number, hat, expected, fail] at h

theorem number_isNumber {c after : Cursor} {x : Binary64}
    (h : c.number = .ok (.float x, after)) : x.isNotNumber = false := by
  unfold number at h
  split at h
  · cases h
  · dsimp only at h
    split at h
    next n heq =>
      cases h
      split at heq
      · split at heq
        · cases heq
        · cases heq
          exact Binary64.isNotNumber_ofDecimal ..
      · split at heq
        · cases heq
          exact Binary64.isNotNumber_ofDecimal ..
        · obtain ⟨n, -, hn⟩ := Option.map_eq_some_iff.mp heq
          cases hn
    next => cases h

theorem appendDigits_toDigits (n : Nat) : appendDigits 0 (Nat.toDigits 10 n) = n := by
  have hfold : ∀ (ds : List Char) (m : Nat), appendDigits m ds = Nat.ofDigitChars 10 ds m := by
    intro ds
    induction ds with
    | nil => intro m; rfl
    | cons d ds ih =>
      intro m
      have hstep : m * 10 + digitValue d = 10 * m + (d.toNat - '0'.toNat) := by
        rw [Nat.mul_comm, digitValue]
        rfl
      rw [Nat.ofDigitChars_cons, ← hstep, ← ih]
      rfl
  rw [hfold, Nat.ofDigitChars_ten_toDigits]

theorem natOfDigits_toDigits (n : Nat) : natOfDigits (Nat.toDigits 10 n) = n := by
  rw [natOfDigits_eq, appendDigits_toDigits]

theorem le_appendDigits (n : Nat) (ds : List Char) : n ≤ appendDigits n ds := by
  have hpos : 0 < Nat.pow 10 ds.length := Nat.pow_pos (by decide)
  rw [appendDigits_eq]
  exact Nat.le_trans (Nat.le_mul_of_pos_right n hpos) (Nat.le_add_right _ _)

theorem powerOfDigits_toDigits {n : Nat} (h : n < 65536) :
    powerOfDigits (Nat.toDigits 10 n) = n := by
  have hfold : ∀ (ds : List Char) (m : Nat), appendDigits m ds < 65536 →
      ds.foldl (fun n d => if n < 65536 then n * 10 + digitValue d else n) m =
        appendDigits m ds := by
    intro ds
    induction ds with
    | nil => intro m _; rfl
    | cons d ds ih =>
      intro m hlt
      have hm : m < 65536 := Nat.lt_of_le_of_lt (le_appendDigits m (d :: ds)) hlt
      rw [List.foldl_cons, if_pos hm]
      exact ih _ hlt
  rw [powerOfDigits, hfold _ _ (by rwa [appendDigits_toDigits]), appendDigits_toDigits]

def signText (negative : Bool) : List Char := if negative then ['-'] else []

theorem whole_read (negative : Bool) (k : Nat) {tail : List Char}
    (htail : Stops Char.isDigit tail) (pos : Nat) :
    atNumber ⟨pos, signText negative ++ (Nat.toDigits 10 k ++ tail)⟩ ∧
    ∃ p, sign ⟨pos, signText negative ++ (Nat.toDigits 10 k ++ tail)⟩ =
        (negative, ⟨p, Nat.toDigits 10 k ++ tail⟩) ∧
      (Nat.toDigits 10 k ++ tail).takeWhile Char.isDigit = Nat.toDigits 10 k ∧
      (Nat.toDigits 10 k ++ tail).dropWhile Char.isDigit = tail := by
  have hdigits : ∀ x ∈ Nat.toDigits 10 k, x.isDigit :=
    fun x hx => Nat.isDigit_of_mem_toDigits (by decide) (by decide) hx
  have htake : (Nat.toDigits 10 k ++ tail).takeWhile Char.isDigit = Nat.toDigits 10 k := by
    rw [takeWhile_append_of_stops htail, List.takeWhile_eq_self_iff.mpr hdigits]
  have hdrop : (Nat.toDigits 10 k ++ tail).dropWhile Char.isDigit = tail := by
    rw [dropWhile_append_of_stops htail, List.dropWhile_eq_nil_iff.mpr hdigits, List.nil_append]
  obtain ⟨d, ds, hd⟩ : ∃ d ds, Nat.toDigits 10 k = d :: ds :=
    List.exists_cons_of_ne_nil Nat.toDigits_ne_nil
  have hdigit : d.isDigit := hdigits d (by simp [hd])
  cases negative with
  | true =>
    refine ⟨?_, pos + '-'.utf8Size, ?_, htake, hdrop⟩
    · simp [signText, hd, atNumber, peekNth, hdigit]
    · rfl
  | false =>
    refine ⟨?_, pos, ?_, htake, hdrop⟩
    · simp [signText, hd, atNumber, hdigit]
    · have hminus : d ≠ '-' := by
        rintro rfl
        exact absurd hdigit (by decide)
      have hplus : d ≠ '+' := by
        rintro rfl
        exact absurd hdigit (by decide)
      simp only [signText, Bool.false_eq_true, if_false, List.nil_append, hd, List.cons_append,
        sign, peek_cons]
      split <;> simp_all

def intText (n : Int64) : List Char :=
  signText (n.toInt < 0) ++ Nat.toDigits 10 n.toInt.natAbs

theorem number_intText (n : Int64) : ∃ stop, number ⟨0, intText n⟩ = .ok (.int n, ⟨stop, []⟩) := by
  obtain ⟨hat, p, hsign, htake, hdrop⟩ := whole_read (n.toInt < 0) n.toInt.natAbs stops_nil 0
  have hint : int64? (n.toInt < 0) n.toInt.natAbs = some n := by
    have hsigned : signed (n.toInt < 0) n.toInt.natAbs = n.toInt := by
      unfold signed
      by_cases hn : n.toInt < 0
      · simp only [hn, decide_true, if_true]
        omega
      · simp only [hn, decide_false, Bool.false_eq_true, if_false]
        omega
    have hlow := n.le_toInt
    have hhigh := n.toInt_lt
    simp only [int64?, hsigned]
    rw [if_pos ⟨by simpa using hlow, by simpa using hhigh⟩, Int64.ofInt_toInt]
  rw [List.append_nil] at hat hsign htake hdrop
  have hfraction : ∀ q, fraction? ⟨q, []⟩ = none := fun _ => rfl
  have hexponent : ∀ q, exponent? ⟨q, []⟩ = none := fun _ => rfl
  simp only [number, intText, hat, Bool.not_true, Bool.false_eq_true, if_false, hsign,
    takeWhile_mk, htake, hdrop, hfraction, hexponent, Option.getD_none, Option.isSome_none,
    natOfDigits_toDigits, hint, Option.map_some]
  exact ⟨_, rfl⟩

def scientificText (negative : Bool) (digits : Nat) (minus : Bool) (power : Nat) : List Char :=
  signText negative ++
    (Nat.toDigits 10 digits ++ 'e' :: (signText minus ++ Nat.toDigits 10 power))

theorem number_scientificText (negative : Bool) (digits : Nat) (minus : Bool) {power : Nat}
    (h : power < 65536) : ∃ stop, number ⟨0, scientificText negative digits minus power⟩ =
      .ok (.float (.ofDecimal negative digits (signed minus power)), ⟨stop, []⟩) := by
  have htail : Stops Char.isDigit ('e' :: (signText minus ++ Nat.toDigits 10 power)) := by
    rw [stops_cons]
    decide
  obtain ⟨hat, p, hsign, htake, hdrop⟩ := whole_read negative digits htail 0
  have hfraction : ∀ q tail, fraction? ⟨q, 'e' :: tail⟩ = none := by
    intro q tail
    simp [fraction?]
  have hexponent : ∀ q, ∃ stop,
      exponent? ⟨q, 'e' :: (signText minus ++ Nat.toDigits 10 power)⟩ =
        some (minus, Nat.toDigits 10 power, ⟨stop, []⟩) := by
    intro q
    obtain ⟨-, p, hsign, htake, hdrop⟩ := whole_read minus power stops_nil (q + 'e'.utf8Size)
    rw [List.append_nil] at hsign htake hdrop
    simp only [exponent?, peek_cons, decide_true, Bool.true_or, if_true, next_cons, hsign,
      takeWhile_mk, htake, hdrop]
    exact ⟨_, rfl⟩
  obtain ⟨stop, hexponent⟩ := hexponent (p + Text.byteLength (Nat.toDigits 10 digits))
  have hne : (Nat.toDigits 10 power).isEmpty = false := by
    simp [Nat.toDigits_ne_nil]
  simp only [number, scientificText, hat, Bool.not_true, Bool.false_eq_true, if_false, hsign,
    takeWhile_mk, htake, hdrop, hfraction, hexponent, Option.getD_none, List.append_nil,
    natOfDigits_toDigits, powerOfDigits_toDigits h, hne, List.length_nil, Int.ofNat_zero,
    Int.sub_zero]
  exact ⟨_, rfl⟩

theorem number_infinite {x : Binary64} {s : Bool} (h : x.datum = .infinite s) :
    ∃ stop, number ⟨0, signText s ++ "1e999".toList⟩ = .ok (.float x, ⟨stop, []⟩) := by
  obtain ⟨stop, hread⟩ := number_scientificText s 1 false (by decide : 999 < 65536)
  have htext : scientificText s 1 false 999 = signText s ++ "1e999".toList := by
    cases s <;> decide
  have hvalue : Binary64.ofDecimal s 1 (signed false 999) = x := by
    rw [Binary64.bits_of_infinite h]
    rfl
  rw [htext, hvalue] at hread
  exact ⟨stop, hread⟩

end Cursor

/-- A way to write finite floating-point numbers from which they can be read. -/
structure FloatForm where
  text : Binary64 → List Char
  reads : ∀ (x : Binary64) (s : Bool) (m : Nat) (q : Int), x.datum = .finite s m q →
    ∃ stop, Cursor.number ⟨0, text x⟩ = .ok (.float x, ⟨stop, []⟩)

/-- All digits of a finite number. Those of a small one stand before a negative power of ten. -/
def FloatForm.exact : FloatForm where
  text x :=
    match x.datum with
    | .finite s m q => Cursor.scientificText s (m * 2 ^ q.toNat * 5 ^ (-q).toNat) true (-q).toNat
    | _ => []
  reads x s m q h := by
    have hsmall : (-q).toNat < 65536 := by
      have hleast := (Binary64.bits_of_finite h).1.least
      have hmin : Format.double.minExponent = -1074 := rfl
      omega
    obtain ⟨stop, hread⟩ :=
      Cursor.number_scientificText s (m * 2 ^ q.toNat * 5 ^ (-q).toNat) true hsmall
    have hvalue := Binary64.ofDecimal_exact h
    rw [h]
    refine ⟨stop, hread.trans ?_⟩
    rw [← hvalue]
    rfl

namespace Cursor

/-- Numbers of templates. A floating-point one may be infinite but is a number. -/
def IsNumeral : Operand → Prop
  | .int _ => True
  | .float x => x.isNotNumber = false

def operandText (form : FloatForm) : Operand → List Char
  | .int n => intText n
  | .float x =>
    match x.datum with
    | .infinite s => signText s ++ "1e999".toList
    | _ => form.text x

theorem number_isNumeral {c after : Cursor} {n : Operand} (h : c.number = .ok (n, after)) :
    IsNumeral n := by
  cases n with
  | int => trivial
  | float x => exact number_isNumber h

theorem number_operandText (form : FloatForm) {n : Operand} (hn : IsNumeral n) {rest : List Char}
    (hrest : Stops isNumberChar rest) (pos : Nat) :
    ∃ stop, number ⟨pos, operandText form n ++ rest⟩ = .ok (n, ⟨stop, rest⟩) := by
  have halone : ∃ stop, number ⟨0, operandText form n⟩ = .ok (n, ⟨stop, []⟩) := by
    cases n with
    | int n => exact number_intText n
    | float x =>
      cases hx : x.datum with
      | notNumber s p => simp [IsNumeral, Binary64.isNotNumber, hx, Datum.isNotNumber] at hn
      | infinite s =>
        simp only [operandText, hx]
        exact number_infinite hx
      | finite s m q =>
        simp only [operandText, hx]
        exact form.reads x s m q hx
  obtain ⟨stop, h⟩ := halone
  exact number_append h hrest pos

theorem atNumber_of_number {c : Cursor} {r : Operand × Cursor} (h : c.number = .ok r) :
    c.atNumber := by
  unfold number at h
  split at h
  · cases h
  next hat => simpa using hat

theorem atNumber_first {x : Char} {cs : List Char} {pos : Nat} (h : atNumber ⟨pos, x :: cs⟩) :
    Text.isBlank x = false ∧ isNameStart x = false ∧ x ≠ '"' ∧ x ≠ '\'' ∧ x ≠ '$' := by
  simp only [atNumber, peek_cons, Bool.or_eq_true, Bool.and_eq_true, decide_eq_true_eq] at h
  rcases h with h | ⟨rfl | rfl, -⟩
  · have htable : ∀ k < 10, Text.isBlank (Char.ofNat (48 + k)) = false ∧
        isNameStart (Char.ofNat (48 + k)) = false ∧ Char.ofNat (48 + k) ≠ '"' ∧
        Char.ofNat (48 + k) ≠ '\'' ∧ Char.ofNat (48 + k) ≠ '$' := by
      decide
    simp only [Char.isDigit, Bool.and_eq_true, decide_eq_true_eq, UInt32.le_iff_toNat_le] at h
    have hx : x = Char.ofNat (48 + (x.toNat - 48)) := by
      have hlow : 48 ≤ x.toNat := h.1
      rw [show 48 + (x.toNat - 48) = x.toNat by omega, Char.ofNat_toNat]
    have hhigh : x.toNat ≤ 57 := h.2
    rw [hx]
    exact htable (x.toNat - 48) (by omega)
  · decide
  · decide

end Cursor

end PathTemplate.Template
