namespace PathTemplate.Numeric

def digitValue (c : Char) : Nat := c.toNat - 48

/-- The number that starts with the digits of `n` and goes on with `ds`. -/
def appendDigits (n : Nat) (ds : List Char) : Nat := ds.foldl (fun n d => n * 10 + digitValue d) n

theorem appendDigits_eq (n : Nat) (ds : List Char) :
    appendDigits n ds = n * Nat.pow 10 ds.length + appendDigits 0 ds := by
  induction ds generalizing n with
  | nil => simp [appendDigits]
  | cons d ds ih =>
    have hn := ih (n * 10 + digitValue d)
    have hz := ih (0 * 10 + digitValue d)
    have hp : Nat.pow 10 (ds.length + 1) = Nat.pow 10 ds.length * 10 := rfl
    simp only [appendDigits, List.foldl_cons, List.length_cons, hp] at hn hz ⊢
    rw [hn, hz]
    simp only [Nat.zero_mul, Nat.zero_add, Nat.add_mul, Nat.mul_assoc, Nat.add_assoc]
    rw [Nat.mul_comm 10]

theorem appendDigits_append (n : Nat) (ds es : List Char) :
    appendDigits n (ds ++ es) = appendDigits (appendDigits n ds) es :=
  List.foldl_append

/-- The number that digits stand for. Many digits are read in two halves, which keeps the numbers
small that are multiplied. -/
def natOfDigits (ds : List Char) : Nat :=
  if ds.length ≤ 64 then appendDigits 0 ds
  else
    natOfDigits (ds.take (ds.length / 2)) * Nat.pow 10 (ds.length - ds.length / 2) +
      natOfDigits (ds.drop (ds.length / 2))
  termination_by ds.length
  decreasing_by
    all_goals
      simp only [List.length_take, List.length_drop]
      omega

theorem natOfDigits_eq (ds : List Char) : natOfDigits ds = appendDigits 0 ds := by
  fun_induction natOfDigits ds with
  | case1 => rfl
  | case2 ds h ihl ihr =>
    have hs := appendDigits_append 0 (ds.take (ds.length / 2)) (ds.drop (ds.length / 2))
    rw [List.take_append_drop] at hs
    rw [ihl, ihr, hs, appendDigits_eq (appendDigits 0 _), List.length_drop]

end PathTemplate.Numeric
