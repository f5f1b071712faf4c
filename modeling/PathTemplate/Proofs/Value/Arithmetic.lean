import PathTemplate.Proofs.Tree.Resolved
import PathTemplate.Proofs.Value.Conformance

namespace PathTemplate

open PathTemplate.Tree

variable {ρ : Type}

/-- The number that a value of any width stands for. -/
def Value.whole? : Value ρ → Option Int
  | .byte n => some n.toInt
  | .short n => some n.toInt
  | .int n => some n.toInt
  | .long n => some n.toInt
  | _ => none

theorem Value.whole?_eq (v : Value ρ) : v.whole? = v.int64?.map (·.toInt) := by
  cases v <;> simp [whole?, int64?]

theorem promoted_integral {ty : Ty} (h : ty.isIntegral) (n : Int64) :
    promoted ty (.int n) = .int ∨ promoted ty (.int n) = .long ∧ ty = .long := by
  cases ty with
  | byte | short | int => exact .inl rfl
  | long => exact .inr ⟨rfl, rfl⟩
  | _ => cases h

theorem HasShape.fits32 {isA : ρ → String → Prop} {ty : Ty} {v : Value ρ} (h : HasShape isA ty v)
    {n : Int64} (hp : promoted ty (.int n) = .int) :
    ∃ m, v.int64? = some m ∧ -2147483648 ≤ m.toInt ∧ m.toInt < 2147483648 := by
  cases ty with
  | byte =>
    obtain ⟨k, rfl⟩ := h
    have hlow := k.le_toInt
    have hhigh := k.toInt_lt
    refine ⟨k.toInt64, rfl, ?_, ?_⟩ <;> rw [Int8.toInt_toInt64] <;> omega
  | short =>
    obtain ⟨k, rfl⟩ := h
    have hlow := k.le_toInt
    have hhigh := k.toInt_lt
    refine ⟨k.toInt64, rfl, ?_, ?_⟩ <;> rw [Int16.toInt_toInt64] <;> omega
  | int =>
    obtain ⟨k, rfl⟩ := h
    have hlow := k.le_toInt
    have hhigh := k.toInt_lt
    refine ⟨k.toInt64, rfl, ?_, ?_⟩ <;> rw [Int32.toInt_toInt64] <;> omega
  | _ => cases hp

/-- Wherever arithmetic on a whole number with a whole operand is accepted, it yields for every value
of the type the exact result, cut to the 32 or 64 bits of the promoted type. It is never null: no
divisor is zero, and where 32 bits are used both sides fit them as they are. -/
theorem arithmetic_exact {isA : ρ → String → Prop} {p q : Path} {a : Arithmetic} {n : Int64}
    {v : Value ρ} (hq : Tree.arithmetic p a = .ok q) (hn : a.operand = .int n)
    (hty : p.cur.ty.isIntegral) (hv : HasShape isA p.cur.ty v) :
    q = (p.guard a.span).link (.math a.op a.operand) (.plain (promoted p.cur.ty a.operand)) a.span ∧
    (a.op = .div ∨ a.op = .rem → n ≠ 0) ∧
    ∃ m, v.whole? = some m ∧
      match promoted p.cur.ty a.operand with
      | .int =>
        (∃ k, v.int64? = some k ∧ k.toInt32.toInt = m) ∧ n.toInt32.toInt = n.toInt ∧
          ∃ r, v.math a.op a.operand .int = .int r ∧
            r.toInt = (a.op.exact m n.toInt).bmod (2 ^ 32)
      | .long =>
        ∃ r, v.math a.op a.operand .long = .long r ∧
          r.toInt = (a.op.exact m n.toInt).bmod (2 ^ 64)
      | _ => False := by
  obtain ⟨-, hfits, rfl⟩ := arithmetic_eq_ok hq
  rw [Path.guard_cur_ty, hn] at hfits ⊢
  obtain ⟨hrange, hzero⟩ := hfits
  rcases promoted_integral hty n with hp | ⟨hp, hlong⟩
  · have hn0 : a.op = .div ∨ a.op = .rem → n ≠ 0 := hzero (by rw [hp]; rfl)
    obtain ⟨hlow, hhigh⟩ := hrange hp
    obtain ⟨m, hm, hmlow, hmhigh⟩ := hv.fits32 hp
    have hm32 := toInt_toInt32_of_fits hmlow hmhigh
    have hn32 := toInt_toInt32_of_fits hlow hhigh
    obtain ⟨r, hr, hexact⟩ := onInt32_exact (a := m.toInt32) fun hop =>
      toInt32_ne_zero hlow hhigh (hn0 hop)
    rw [hm32, hn32] at hexact
    refine ⟨rfl, hn0, m.toInt, by simp [Value.whole?_eq, hm], ?_⟩
    rw [hp]
    exact ⟨⟨m, hm, hm32⟩, hn32, r, by simp only [Value.math, hm, hr], hexact⟩
  · have hn0 : a.op = .div ∨ a.op = .rem → n ≠ 0 := hzero (by rw [hp]; rfl)
    rw [hlong] at hv
    obtain ⟨m, rfl⟩ := hv
    obtain ⟨r, hr, hexact⟩ := onInt64_exact (a := m) hn0
    refine ⟨rfl, hn0, m.toInt, rfl, ?_⟩
    rw [hp]
    exact ⟨r, by simp only [Value.math, Value.int64?, hr], hexact⟩

/-- The least number divided by -1 is one more than 32 bits hold, and comes round to itself. -/
theorem arithmetic_exact_least :
    ∃ q, Tree.arithmetic (.start (.plain .int)) ⟨.div, .int (-1), .nowhere⟩ = .ok q ∧
      q.cur = .plain .int ∧
      (Value.int (-2147483648) : Value Unit).math .div (.int (-1)) .int = .int (-2147483648) ∧
      (Int.tdiv (-2147483648) (-1)).bmod (2 ^ 32) = -2147483648 := by
  have hty : Ty.int.isIntegral := rfl
  have hshape : HasShape (fun (_ : Unit) _ => True) .int (Value.int (-2147483648)) := ⟨_, rfl⟩
  obtain ⟨-, -, m, hm, -, -, r, hr, hexact⟩ :=
    arithmetic_exact (p := .start (.plain .int)) (a := ⟨.div, .int (-1), .nowhere⟩) rfl rfl hty hshape
  obtain rfl : -2147483648 = m := Option.some.inj hm
  refine ⟨_, rfl, rfl, ?_, by decide⟩
  rw [hr]
  refine congrArg Value.int (Int32.toInt_inj.mp (hexact.trans ?_))
  decide

end PathTemplate
