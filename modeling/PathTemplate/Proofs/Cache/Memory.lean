import PathTemplate.Cache.Memory

namespace PathTemplate.Cache

variable {π : Type}

def Entry.Same (a b : Entry π) : Prop :=
  a.key = b.key ∧ a.template = b.template ∧ a.program = b.program

namespace Memory

variable {m : Memory π} {now : Nat} {key : ContentHash} {template : String}

def has (m : Memory π) (key : ContentHash) : Bool := m.entries.any (·.key == key)

theorem has_iff : m.has key ↔ ∃ e, m.entry? key = some e := by
  rw [has, List.any_eq_true, ← List.find?_isSome, Option.isSome_iff_exists]
  rfl

theorem entry?_eq_none : m.entry? key = none ↔ ∀ e ∈ m.entries, e.key ≠ key := by
  unfold entry?
  simp

theorem mem_of_entry? {e : Entry π} (h : m.entry? key = some e) : e ∈ m.entries ∧ e.key = key := by
  refine ⟨List.mem_of_find?_eq_some h, ?_⟩
  simpa using List.find?_some h

theorem get?_eq_none (h : m.entry? key = none) (now : Nat) (template : String) :
    m.get? now key template = none := by
  simp [get?, h]

/-- Time does not bring a program into memory. -/
theorem get?_none (h : m.get? now key template = none) (later : Nat) :
    m.get? later key template = none := by
  unfold get? at h ⊢
  split
  · rfl
  next e he =>
    simp only [he] at h
    split at h
    · cases h
    next hne => rw [if_neg hne]

theorem getOrBuild_fst {σ ε : Type} (m : Memory π) (now : Nat) (key : ContentHash)
    (template : String) (build : σ → Except ε π × σ) (s : σ) :
    (m.getOrBuild now key template build s).1 =
      match m.get? now key template with
      | some (program, _) => .ok program
      | none => (build s).1 := by
  unfold getOrBuild
  cases m.get? now key template with
  | some found => rfl
  | none =>
    obtain ⟨result, s'⟩ := build s
    cases result <;> rfl

theorem get?_eq_some {e : Entry π} (h : m.entry? key = some e) (ht : e.template = template)
    (now : Nat) : ∃ m', m.get? now key template = some (e.program, m') := by
  simp [get?, h, ht]

theorem mem_get? {program : π} {m' : Memory π}
    (h : m.get? now key template = some (program, m')) {e : Entry π} (he : e ∈ m'.entries) :
    ∃ e₀ ∈ m.entries, e.Same e₀ := by
  unfold get? at h
  split at h
  · cases h
  · split at h
    · cases h
      obtain ⟨e₀, hmem, rfl⟩ := List.mem_map.mp he
      refine ⟨e₀, hmem, ?_⟩
      split
      · exact ⟨rfl, rfl, rfl⟩
      · exact ⟨rfl, rfl, rfl⟩
    · cases h

theorem mem_evict {e : Entry π} {count : Nat} {entries : List (Entry π)}
    (h : e ∈ evict count entries) : e ∈ entries := by
  induction count generalizing entries with
  | zero => exact h
  | succ count ih =>
    have hdrop : e ∈ dropOldest entries := ih h
    unfold dropOldest at hdrop
    split at hdrop
    · cases hdrop
    · exact (List.mem_filter.mp hdrop).1

theorem mem_insert {program : π} {e : Entry π}
    (h : e ∈ (m.insert now key template program).entries) :
    e = ⟨key, template, program, now⟩ ∨ e ∈ m.entries ∧ e.key ≠ key := by
  rcases List.mem_cons.mp h with h | h
  · exact .inl h
  · have hmem := List.mem_filter.mp (mem_evict h)
    exact .inr ⟨hmem.1, by simpa using hmem.2⟩

theorem has_insert {program : π} : (m.insert now key template program).has key := by
  simp [has, insert]

theorem mem_sweep {e : Entry π} (h : e ∈ (m.sweep now).2.entries) : e ∈ m.entries := by
  unfold sweep at h
  split at h
  · exact h
  · exact (List.mem_filter.mp h).1

end Memory

end PathTemplate.Cache
