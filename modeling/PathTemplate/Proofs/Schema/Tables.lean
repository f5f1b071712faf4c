import Mathlib.Data.List.Nodup
import Mathlib.Tactic.Push
import Std.Data.HashMap.Lemmas
import PathTemplate.Schema.Tables

namespace PathTemplate

variable {ρ : Type}

theorem find?_eq_some_iff_of_nodup {α β : Type} [BEq β] [LawfulBEq β] {key : α → β} {l : List α}
    (h : (l.map key).Nodup) {k : β} {a : α} :
    l.find? (fun a => key a == k) = some a ↔ a ∈ l ∧ key a = k := by
  constructor
  · intro hfind
    exact ⟨List.mem_of_find?_eq_some hfind, by simpa using List.find?_some hfind⟩
  · rintro ⟨ha, rfl⟩
    cases hfind : l.find? (fun b => key b == key a) with
    | none => simpa using List.find?_eq_none.mp hfind a ha
    | some b =>
      have hb : key b = key a := by simpa using List.find?_some hfind
      rw [List.inj_on_of_nodup_map h (List.mem_of_find?_eq_some hfind) ha hb]

def Member.key (m : Member ρ) : MemberKind × String := (m.kind, m.name)

namespace Shape

theorem member?_eq (s : Shape ρ) (kind : MemberKind) (name : String) :
    s.member? kind name = s.members.find? (·.key == (kind, name)) := rfl

theorem duplicate?_eq_none {earlier rest : List (Member ρ)} : duplicate? earlier rest = none ↔
    (rest.map Member.key).Nodup ∧ ∀ e ∈ earlier, e.key ∉ rest.map Member.key := by
  induction rest generalizing earlier with
  | nil => simp [duplicate?]
  | cons m rest ih =>
    have hany : (earlier.any fun e => e.kind == m.kind && e.name == m.name) = true ↔
        ∃ e ∈ earlier, e.key = m.key := by
      simp [Member.key]
    rw [duplicate?, List.map_cons, List.nodup_cons]
    by_cases h : ∃ e ∈ earlier, e.key = m.key
    · rw [if_pos (hany.mpr h)]
      obtain ⟨e, he, hkey⟩ := h
      simp only [reduceCtorEq, false_iff, not_and]
      intro _ hall
      exact hall e he (hkey ▸ List.mem_cons_self)
    · rw [if_neg (mt hany.mp h), ih, List.forall_mem_cons]
      push Not at h
      constructor
      · rintro ⟨hrest, hm, hearlier⟩
        refine ⟨⟨hm, hrest⟩, fun e he hin => ?_⟩
        rcases List.mem_cons.mp hin with heq | hin
        · exact h e he heq
        · exact hearlier e he hin
      · rintro ⟨⟨hm, hrest⟩, hearlier⟩
        exact ⟨hrest, hm, fun e he hin => hearlier e he (List.mem_cons_of_mem _ hin)⟩

theorem member?_eq_some_iff {s : Shape ρ} (h : duplicate? [] s.members = none) {kind : MemberKind}
    {name : String} {m : Member ρ} :
    s.member? kind name = some m ↔ m ∈ s.members ∧ m.kind = kind ∧ m.name = name := by
  rw [member?_eq, find?_eq_some_iff_of_nodup (duplicate?_eq_none.mp h).1, Member.key, Prod.mk.injEq]

end Shape

namespace Places

theorem getElem?_table_insert (p : Places) (kind kind' : MemberKind) (name name' : String)
    (i : Nat) :
    ((p.insert kind name i).table kind')[name']? =
      if (kind, name) = (kind', name') then some i else (p.table kind')[name']? := by
  cases kind <;> cases kind' <;> simp [insert, table, Std.HashMap.getElem?_insert]

/-- Each name is at the place of the first member of its kind that has it. -/
def Holds (p : Places) (members : List (Member ρ)) : Prop :=
  ∀ kind name, (p.table kind)[name]? = members.findIdx? (·.key == (kind, name))

theorem holds_empty : empty.Holds ([] : List (Member ρ)) := by
  intro kind name
  cases kind <;> simp [empty, table]

theorem Holds.mem_iff {p : Places} {members : List (Member ρ)} (h : p.Holds members)
    (m : Member ρ) :
    m.name ∈ p.table m.kind ↔ ∃ e ∈ members, e.key = m.key := by
  rw [Std.HashMap.mem_iff_isSome_getElem?, h, List.findIdx?_isSome, List.any_eq_true]
  simp [Member.key]

theorem Holds.insert {p : Places} {members : List (Member ρ)} (h : p.Holds members) {m : Member ρ}
    (hm : m.name ∉ p.table m.kind) :
    (p.insert m.kind m.name members.length).Holds (members ++ [m]) := by
  intro kind name
  rw [getElem?_table_insert, List.findIdx?_append, ← h kind name]
  by_cases heq : (m.kind, m.name) = (kind, name)
  · cases heq
    rw [Std.HashMap.getElem?_eq_none hm]
    simp [Member.key]
  · simp [Member.key, heq]

theorem enter_cases {p : Places} {earlier : List (Member ρ)} (h : p.Holds earlier)
    (rest : List (Member ρ)) :
    (∃ name, Shape.duplicate? earlier.reverse rest = some name ∧
      p.enter earlier.length rest = .error name) ∨
    (∃ p', Shape.duplicate? earlier.reverse rest = none ∧ p.enter earlier.length rest = .ok p' ∧
      p'.Holds (earlier ++ rest)) := by
  induction rest generalizing p earlier with
  | nil => exact .inr ⟨p, rfl, rfl, by simpa using h⟩
  | cons m rest ih =>
    have hany : (earlier.reverse.any fun e => e.kind == m.kind && e.name == m.name) = true ↔
        m.name ∈ p.table m.kind := by
      rw [h.mem_iff]
      simp [Member.key]
    rw [enter, Shape.duplicate?]
    by_cases hm : m.name ∈ p.table m.kind
    · exact .inl ⟨m.name, if_pos (hany.mpr hm), if_pos hm⟩
    · rw [if_neg hm, if_neg (mt hany.mp hm)]
      simpa using ih (h.insert hm)

end Places

/-- A record type with its tables, which find what the record type has. -/
structure Indexed.Good (x : Indexed ρ) : Prop where
  once : Shape.duplicate? [] x.shape.members = none
  member? : ∀ kind name, x.member? kind name = x.shape.member? kind name

theorem Indexed.Good.member?_eq_some_iff {x : Indexed ρ} (h : x.Good) {kind : MemberKind}
    {label : String} {m : Member ρ} :
    x.member? kind label = some m ↔ m ∈ x.shape.members ∧ m.kind = kind ∧ m.name = label := by
  rw [h.member?, Shape.member?_eq_some_iff h.once]

theorem Shape.index_cases (s : Shape ρ) :
    (∃ m, duplicate? [] s.members = some m ∧ s.index = .error (.duplicateMember s.name m)) ∨
    (∃ x, duplicate? [] s.members = none ∧ s.index = .ok x ∧ x.shape = s ∧ x.Good) := by
  rcases Places.enter_cases Places.holds_empty s.members with ⟨m, hm, h⟩ | ⟨p, hm, h, hp⟩
  · refine .inl ⟨m, hm, ?_⟩
    simp only [List.length_nil] at h
    rw [index, h]
  · refine .inr ⟨⟨s, p⟩, hm, ?_, rfl, hm, fun kind name => ?_⟩
    · simp only [List.length_nil] at h
      rw [index, h]
    · rw [Indexed.member?, hp, member?_eq, List.find?_eq_bind_findIdx?_getElem?]
      rfl

namespace Registry

def registerAll (ts : List (Shape ρ)) : ExceptT SchemaError (StateM (Registry ρ)) Unit :=
  ts.forM register

def after (history : List (Shape ρ)) : Registry ρ :=
  history.foldl (fun r t => ((register t).run.run r).2) empty

/-- What a call can do: the type has been added before, its name is taken by another, two of its
members clash, or it is added now. -/
inductive Registered (t : Shape ρ) (r : Registry ρ) : Except SchemaError Unit × Registry ρ → Prop
  | again {x : Indexed ρ} (hx : r.byName[t.name]? = some x) (hid : x.shape.id = t.id) :
    Registered t r (.ok (), r)
  | taken {x : Indexed ρ} (hx : r.byName[t.name]? = some x) (hid : x.shape.id ≠ t.id) :
    Registered t r (.error (.duplicateName t.name), r)
  | clashing {e : SchemaError} (hx : r.byName[t.name]? = none) (hindex : t.index = .error e) :
    Registered t r (.error e, r)
  | added {x : Indexed ρ} (hx : r.byName[t.name]? = none) (hindex : t.index = .ok x) :
    Registered t r (.ok (), ⟨r.byName.insert t.name x, r.byType.insert t.id t.name⟩)

theorem register_registered (t : Shape ρ) (r : Registry ρ) :
    Registered t r ((register t).run.run r) := by
  have hrun : (register t).run.run r = (accept t r.byName[t.name]?).run.run r := rfl
  rw [hrun]
  cases hx : r.byName[t.name]? with
  | some x =>
    rw [accept]
    by_cases hid : x.shape.id = t.id
    · rw [if_pos hid]
      exact .again hx hid
    · rw [if_neg hid]
      exact .taken hx hid
  | none =>
    rw [accept]
    cases hindex : t.index with
    | error e => exact .clashing hx hindex
    | ok x => exact .added hx hindex

end Registry

end PathTemplate
