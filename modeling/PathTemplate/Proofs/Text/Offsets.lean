import PathTemplate.Span

namespace PathTemplate.Text

@[simp] theorem byteLength_nil : byteLength [] = 0 := rfl

@[simp] theorem byteLength_cons (c : Char) (cs : List Char) :
    byteLength (c :: cs) = c.utf8Size + byteLength cs := by
  have h : ∀ (cs : List Char) (n : Nat),
      cs.foldl (fun n c => n + c.utf8Size) n = n + byteLength cs := by
    intro cs
    induction cs with
    | nil => exact fun n => rfl
    | cons c cs ih =>
      intro n
      have hcons : byteLength (c :: cs) = 0 + c.utf8Size + byteLength cs := ih (0 + c.utf8Size)
      rw [List.foldl_cons, ih, hcons]
      omega
  exact (h cs (0 + c.utf8Size)).trans (by rw [Nat.zero_add])

@[simp] theorem byteLength_append (a b : List Char) :
    byteLength (a ++ b) = byteLength a + byteLength b := by
  induction a with
  | nil => simp
  | cons c a ih => simp [ih, Nat.add_assoc]

theorem length_le_byteLength (cs : List Char) : cs.length ≤ byteLength cs := by
  induction cs with
  | nil => exact Nat.le_refl 0
  | cons c cs ih =>
    have := c.utf8Size_pos
    rw [byteLength_cons, List.length_cons]
    omega

theorem byteLength_eq_zero {cs : List Char} : byteLength cs = 0 ↔ cs = [] := by
  have := length_le_byteLength cs
  constructor
  · intro h
    exact List.eq_nil_of_length_eq_zero (by omega)
  · rintro rfl
    rfl

/-- No character of the text goes over the offset. -/
def IsBoundary (text : List Char) (n : Nat) : Prop :=
  ∃ before after, text = before ++ after ∧ byteLength before = n

theorem isBoundary_zero (text : List Char) : IsBoundary text 0 := ⟨[], text, rfl, rfl⟩

theorem IsBoundary.le {text : List Char} {n : Nat} (h : IsBoundary text n) :
    n ≤ byteLength text := by
  obtain ⟨a, b, rfl, rfl⟩ := h
  simp

theorem utf8Size_add (c : Char) (n : Nat) : ∃ k, c.utf8Size + n = k + 1 ∧ k + 1 - c.utf8Size = n :=
  ⟨c.utf8Size + n - 1, by have := c.utf8Size_pos; omega, by have := c.utf8Size_pos; omega⟩

theorem dropBytes_append (a b : List Char) : dropBytes (byteLength a) (a ++ b) = some b := by
  induction a with
  | nil => simp [dropBytes]
  | cons c a ih =>
    obtain ⟨k, hk, hrest⟩ := utf8Size_add c (byteLength a)
    rw [byteLength_cons, hk, List.cons_append, dropBytes, if_pos (by omega), hrest, ih]

theorem takeBytes_append (a b : List Char) : takeBytes (byteLength a) (a ++ b) = some a := by
  induction a with
  | nil => simp [takeBytes]
  | cons c a ih =>
    obtain ⟨k, hk, hrest⟩ := utf8Size_add c (byteLength a)
    rw [byteLength_cons, hk, List.cons_append, takeBytes, if_pos (by omega), hrest, ih]
    rfl

theorem splitBytes_append (a b : List Char) : splitBytes (byteLength a) (a ++ b) = (a, b) := by
  induction a with
  | nil => simp [splitBytes]
  | cons c a ih =>
    obtain ⟨k, hk, hrest⟩ := utf8Size_add c (byteLength a)
    rw [byteLength_cons, hk, List.cons_append, splitBytes, if_pos (by omega), hrest, ih]

theorem sliceBytes_append (a b c : List Char) :
    sliceBytes (byteLength a) (byteLength a + byteLength b) (a ++ b ++ c) = some b := by
  rw [sliceBytes, if_pos (by omega), List.append_assoc, dropBytes_append, Option.bind_some,
    Nat.add_sub_cancel_left, takeBytes_append]

end PathTemplate.Text
