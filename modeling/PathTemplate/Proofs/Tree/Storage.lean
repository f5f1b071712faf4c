import Mathlib.Data.Multiset.Bind
import Mathlib.Tactic.Abel
import PathTemplate.Tree.Arena

/-!
Arenas as collections of cells. Storing a node adds one cell and changing a node changes one, so what
an operation leaves alone is a summand of the cells before and after it. A stored tree is a tree whose
nodes have numbers, and its cells are those of its nodes. Main statements: what is stored this way is
the tree that the arena reads back, a copy takes cells of its own, and where the other cells name
nothing, no node of the tree is named twice.
-/

namespace PathTemplate.Tree

def Slot.references (s : Slot) : List Nat := s.children ++ s.otherwise

abbrev Cell := Nat × Slot

/-- Cells that name no others. -/
def Inert (cells : Multiset Cell) : Prop := ∀ c ∈ cells, c.2.references = []

theorem inert_zero : Inert 0 := by simp [Inert]

theorem Inert.cons {cells : Multiset Cell} {c : Cell} (h : Inert cells)
    (hc : c.2.references = []) : Inert (c ::ₘ cells) :=
  Multiset.forall_mem_cons.mpr ⟨hc, h⟩

theorem Inert.add {cells cells' : Multiset Cell} (h : Inert cells) (h' : Inert cells') :
    Inert (cells + cells') := by
  intro c hc
  rcases Multiset.mem_add.mp hc with hc | hc
  · exact h c hc
  · exact h' c hc

namespace Arena

variable {a : Arena} {id : Nat} {s : Slot} {frame : Multiset Cell}

def references (a : Arena) : List Nat := a.slots.flatMap Slot.references

def cells (a : Arena) : Multiset Cell := (a.slots.zipIdx.map Prod.swap : List Cell)

theorem mem_cells : (id, s) ∈ a.cells ↔ a.get? id = some s := by
  simp [cells, get?, List.mem_zipIdx_iff_getElem?]

theorem card_cells (a : Arena) : a.cells.card = a.size := by
  simp [cells, size]

theorem nodup_cells (a : Arena) : (a.cells.map Prod.fst).Nodup := by
  have hids : (a.slots.zipIdx.map Prod.swap).map Prod.fst = List.range a.slots.length := by
    rw [List.map_map, List.range_eq_range']
    exact List.zipIdx_map_snd 0 a.slots
  simp only [cells, Multiset.map_coe, hids, Multiset.coe_nodup]
  exact List.nodup_range

@[simp] theorem cells_empty : empty.cells = 0 := rfl

theorem cells_insert (a : Arena) (s : Slot) :
    (a.insert s).2.cells = (a.size, s) ::ₘ a.cells := by
  simp [insert, cells, size, List.zipIdx_append]

theorem get?_of_cells (h : a.cells = (id, s) ::ₘ frame) : a.get? id = some s := by
  rw [← mem_cells, h]
  exact Multiset.mem_cons_self _ _

theorem cells_update (h : a.cells = (id, s) ::ₘ frame) (f : Slot → Slot) :
    (a.update id f).cells = (id, f s) ::ₘ frame := by
  obtain ⟨hlt, hs⟩ := List.getElem?_eq_some_iff.mp (get?_of_cells h)
  obtain ⟨before, s', after, hslots, hid, hmodify⟩ := List.exists_of_modify f hlt
  obtain rfl : s' = s := by
    rw [← hs]
    simp [hslots, ← hid]
  have hcells : ∀ s : Slot, (⟨before ++ s :: after⟩ : Arena).cells =
      (id, s) ::ₘ ((before.zipIdx.map Prod.swap ++
        (after.zipIdx (id + 1)).map Prod.swap : List Cell)) := by
    intro s
    simp only [cells, List.zipIdx_append, List.zipIdx_cons, List.map_append, List.map_cons,
      Prod.swap_prod_mk, Nat.zero_add, hid]
    exact Multiset.coe_eq_coe.mpr List.perm_middle
  obtain ⟨slots⟩ := a
  simp only at hslots hmodify
  rw [update, hmodify, hcells]
  rw [hslots, hcells] at h
  rw [Multiset.cons_inj_right] at h ⊢
  exact h

theorem cells_link (h : a.cells = (id, s) ::ₘ frame) (child : Nat) :
    (a.link id child).cells = (id, { s with children := s.children ++ [child] }) ::ₘ frame :=
  cells_update h _

theorem cells_linkOtherwise (h : a.cells = (id, s) ::ₘ frame) (child : Nat) :
    (a.linkOtherwise id child).cells =
      (id, { s with otherwise := s.otherwise ++ [child] }) ::ₘ frame :=
  cells_update h _

theorem references_eq (a : Arena) :
    (a.references : Multiset Nat) = a.cells.bind fun c => (c.2.references : Multiset Nat) := by
  simp only [references, cells, Multiset.coe_bind, List.flatMap_map]
  conv_lhs => rw [← List.zipIdx_map_fst 0 a.slots, List.flatMap_map]
  rfl

inductive Reachable (a : Arena) (root : Nat) : Nat → Prop where
  | root : Reachable a root root
  | step {id child : Nat} {s : Slot} : Reachable a root id → a.get? id = some s →
      child ∈ s.references → Reachable a root child

/-- Of the nodes that can be got to from the root, the root is not named at all and every other one
exactly once, in all of the arena. -/
def Unshared (a : Arena) (root : Nat) : Prop :=
  ∀ id, a.Reachable root id → a.references.count id = if id = root then 0 else 1

end Arena

/-- A tree whose nodes have numbers. -/
inductive Numbered where
  | mk (id : Nat) (kind : NodeKind) (ty : FlaggedTy) (span : Span)
      (children otherwise : List Numbered)

namespace Numbered

def id : Numbered → Nat
  | .mk id _ _ _ _ _ => id

def kind : Numbered → NodeKind
  | .mk _ kind _ _ _ _ => kind

def ty : Numbered → FlaggedTy
  | .mk _ _ ty _ _ _ => ty

def span : Numbered → Span
  | .mk _ _ _ span _ _ => span

def children : Numbered → List Numbered
  | .mk _ _ _ _ children _ => children

def otherwise : Numbered → List Numbered
  | .mk _ _ _ _ _ otherwise => otherwise

mutual

def node : Numbered → Node
  | .mk _ kind ty span children otherwise => .mk kind ty span (nodes children) (nodes otherwise)

def nodes : List Numbered → List Node
  | [] => []
  | t :: ts => t.node :: nodes ts

end

mutual

def cells : Numbered → Multiset Cell
  | .mk id kind ty span children otherwise =>
    (id, ⟨kind, ty, span, children.map Numbered.id, otherwise.map Numbered.id⟩) ::ₘ
      (cellsAll children + cellsAll otherwise)

def cellsAll : List Numbered → Multiset Cell
  | [] => 0
  | t :: ts => t.cells + cellsAll ts

end

theorem nodes_eq_map (ts : List Numbered) : nodes ts = ts.map node := by
  induction ts with
  | nil => rfl
  | cons t ts ih => simp [nodes, ih]

theorem node_eq (t : Numbered) :
    t.node = .mk t.kind t.ty t.span (t.children.map node) (t.otherwise.map node) := by
  cases t
  simp [node, nodes_eq_map, kind, ty, span, children, otherwise]

def slot (t : Numbered) : Slot :=
  ⟨t.kind, t.ty, t.span, t.children.map Numbered.id, t.otherwise.map Numbered.id⟩

theorem cells_eq (t : Numbered) :
    t.cells = (t.id, t.slot) ::ₘ (cellsAll t.children + cellsAll t.otherwise) := by
  cases t
  rw [cells]
  rfl

theorem kind_node (t : Numbered) : t.node.kind = t.kind := by
  cases t
  rfl

theorem cellsAll_append (ts us : List Numbered) :
    cellsAll (ts ++ us) = cellsAll ts + cellsAll us := by
  induction ts with
  | nil => simp [cellsAll]
  | cons t ts ih => simp only [List.cons_append, cellsAll, ih, add_assoc]

theorem cellsAll_singleton (t : Numbered) : cellsAll [t] = t.cells := by
  simp [cellsAll]

def named (cells : Multiset Cell) : Multiset Nat :=
  cells.bind fun c => (c.2.references : Multiset Nat)

mutual

theorem named_cells : (t : Numbered) → t.id ::ₘ named t.cells = t.cells.map Prod.fst
  | .mk id kind ty span children otherwise => by
    have hc := named_cellsAll children
    have ho := named_cellsAll otherwise
    simp only [named, cells, Multiset.cons_bind, Multiset.add_bind, Multiset.map_cons,
      Multiset.map_add, Slot.references] at hc ho ⊢
    rw [← hc, ← ho, ← Multiset.coe_add]
    congr 1
    abel

theorem named_cellsAll : (ts : List Numbered) →
    (ts.map Numbered.id : Multiset Nat) + named (cellsAll ts) = (cellsAll ts).map Prod.fst
  | [] => by simp [named, cellsAll]
  | t :: ts => by
    have ht := named_cells t
    have hts := named_cellsAll ts
    simp only [named, cellsAll, Multiset.add_bind, Multiset.map_add, List.map_cons] at ht hts ⊢
    rw [← ht, ← hts, ← Multiset.cons_coe, ← Multiset.singleton_add, ← Multiset.singleton_add]
    abel

end

end Numbered

namespace Arena

variable {a : Arena} {t : Numbered} {frame : Multiset Cell}

theorem references_of_cells (h : a.cells = t.cells + frame) (hframe : Inert frame) :
    (a.references : Multiset Nat) = Numbered.named t.cells := by
  have hnone : frame.bind (fun c => (c.2.references : Multiset Nat)) = 0 :=
    Multiset.eq_zero_of_forall_notMem fun id hid => by
      obtain ⟨c, hc, hid⟩ := Multiset.mem_bind.mp hid
      simp [hframe c hc] at hid
  rw [references_eq, h, Multiset.add_bind, hnone, add_zero]
  rfl

theorem Reachable.mem (h : a.cells = t.cells + frame) (hframe : Inert frame) {id : Nat}
    (hid : a.Reachable t.id id) : id ∈ t.cells.map Prod.fst := by
  rw [← t.named_cells, ← references_of_cells h hframe]
  cases hid with
  | root => exact Multiset.mem_cons_self _ _
  | @step parent _ s _ hs hchild =>
    refine Multiset.mem_cons_of_mem ?_
    exact List.mem_flatMap.mpr ⟨s, List.mem_of_getElem? hs, hchild⟩

/-- A tree that takes all cells that name anything is not shared in any part. -/
theorem unshared_of_cells (h : a.cells = t.cells + frame) (hframe : Inert frame) :
    a.Unshared t.id := by
  intro id hid
  have hnodup := a.nodup_cells
  rw [h, Multiset.map_add] at hnodup
  have hone : (t.cells.map Prod.fst).count id = 1 :=
    Multiset.count_eq_one_of_mem (Multiset.nodup_of_le (Multiset.le_add_right _ _) hnodup)
      (hid.mem h hframe)
  rw [← t.named_cells, ← references_of_cells h hframe, Multiset.count_cons, Multiset.coe_count]
    at hone
  split at hone <;> split <;> simp_all

end Arena

mutual

theorem Numbered.treeWithin {a : Arena} : (t : Numbered) → (∀ c ∈ t.cells, a.get? c.1 = some c.2) →
    ∀ {depth : Nat}, t.cells.card ≤ depth → a.treeWithin depth t.id = some t.node
  | .mk id kind ty span children otherwise, h, depth, hdepth => by
    simp only [cells, Multiset.card_cons, Multiset.card_add] at hdepth
    obtain ⟨depth, rfl⟩ : ∃ d, depth = d + 1 := ⟨depth - 1, by omega⟩
    simp only [cells, Multiset.mem_cons, Multiset.mem_add] at h
    have hs := h _ (.inl rfl)
    have hc := mapM_treeWithin children (fun c hc => h c (.inr (.inl hc)))
      (show (cellsAll children).card ≤ depth by omega)
    have ho := mapM_treeWithin otherwise (fun c hc => h c (.inr (.inr hc)))
      (show (cellsAll otherwise).card ≤ depth by omega)
    simp only at hs
    simp [Numbered.id, Arena.treeWithin, hs, hc, ho, node]

theorem Numbered.mapM_treeWithin {a : Arena} : (ts : List Numbered) →
    (∀ c ∈ cellsAll ts, a.get? c.1 = some c.2) →
    ∀ {depth : Nat}, (cellsAll ts).card ≤ depth →
      (ts.map Numbered.id).mapM (a.treeWithin depth) = some (nodes ts)
  | [], _, _, _ => rfl
  | t :: ts, h, depth, hdepth => by
    simp only [cellsAll, Multiset.card_add] at hdepth
    simp only [cellsAll, Multiset.mem_add] at h
    have ht := t.treeWithin (fun c hc => h c (.inl hc)) (show t.cells.card ≤ depth by omega)
    have hts := mapM_treeWithin ts (fun c hc => h c (.inr hc))
      (show (cellsAll ts).card ≤ depth by omega)
    simp [List.mapM_cons, ht, hts, nodes]

end

namespace Arena

variable {a : Arena} {t : Numbered} {frame : Multiset Cell}

theorem get?_of_mem (h : a.cells = t.cells + frame) : ∀ c ∈ t.cells, a.get? c.1 = some c.2 := by
  intro c hc
  rw [← mem_cells, h]
  exact Multiset.mem_add.mpr (.inl hc)

theorem card_le_size (h : a.cells = t.cells + frame) : t.cells.card ≤ a.size := by
  rw [← a.card_cells, h, Multiset.card_add]
  omega

/-- The arena reads back the tree that takes its cells. -/
theorem tree?_of_cells (h : a.cells = t.cells + frame) : a.tree? t.id = some t.node :=
  t.treeWithin (get?_of_mem h) (card_le_size h)

end Arena

mutual

theorem Numbered.copyWithin : (t : Numbered) → ∀ {a : Arena} {frame : Multiset Cell} {depth : Nat},
    a.cells = t.cells + frame → t.cells.card ≤ depth →
      ∃ (t' : Numbered) (a' : Arena), Arena.copyWithin depth t.id a = some (t'.id, a') ∧
        t'.node = t.node ∧ a'.cells = t'.cells + a.cells
  | .mk id kind ty span children otherwise, a, frame, depth, h, hdepth => by
    simp only [cells, Multiset.card_cons, Multiset.card_add] at hdepth
    obtain ⟨depth, rfl⟩ : ∃ d, depth = d + 1 := ⟨depth - 1, by omega⟩
    rw [cells, Multiset.cons_add] at h
    have hs := Arena.get?_of_cells h
    have hchildren : a.cells = cellsAll children +
        (id, ⟨kind, ty, span, children.map Numbered.id, otherwise.map Numbered.id⟩) ::ₘ
          (cellsAll otherwise + frame) := by
      rw [h, Multiset.add_cons, add_assoc]
    obtain ⟨children', a₁, hc, hcn, ha₁⟩ := each_copyWithin children hchildren
      (show (cellsAll children).card ≤ depth by omega)
    have hotherwise : a₁.cells = cellsAll otherwise + (cellsAll children' + cellsAll children +
        (id, ⟨kind, ty, span, children.map Numbered.id, otherwise.map Numbered.id⟩) ::ₘ frame) := by
      rw [ha₁, h]
      simp only [← Multiset.singleton_add]
      abel
    obtain ⟨otherwise', a₂, ho, hon, ha₂⟩ := each_copyWithin otherwise hotherwise
      (show (cellsAll otherwise).card ≤ depth by omega)
    refine ⟨.mk a₂.size kind ty span children' otherwise',
      (a₂.insert ⟨kind, ty, span, children'.map Numbered.id, otherwise'.map Numbered.id⟩).2,
      ?_, by simp only [node, hcn, hon], ?_⟩
    · simp only [Numbered.id, Arena.copyWithin, hs, Option.bind_eq_bind, Option.bind_some, hc, ho]
      rfl
    · rw [Arena.cells_insert, ha₂, ha₁, cells]
      simp only [← Multiset.singleton_add]
      abel

theorem Numbered.each_copyWithin : (ts : List Numbered) →
    ∀ {a : Arena} {frame : Multiset Cell} {depth : Nat},
    a.cells = cellsAll ts + frame → (cellsAll ts).card ≤ depth →
      ∃ (ts' : List Numbered) (a' : Arena),
        Arena.each (Arena.copyWithin depth) (ts.map Numbered.id) a =
          some (ts'.map Numbered.id, a') ∧ nodes ts' = nodes ts ∧
        a'.cells = cellsAll ts' + a.cells
  | [], a, _, _, _, _ => ⟨[], a, rfl, rfl, by simp [cellsAll]⟩
  | t :: ts, a, frame, depth, h, hdepth => by
    simp only [cellsAll, Multiset.card_add] at hdepth
    rw [cellsAll, add_assoc] at h
    obtain ⟨t', a₁, ht, htn, ha₁⟩ := t.copyWithin h (show t.cells.card ≤ depth by omega)
    have hrest : a₁.cells = cellsAll ts + (t'.cells + t.cells + frame) := by
      rw [ha₁, h]
      abel
    obtain ⟨ts', a₂, hts, htsn, ha₂⟩ := each_copyWithin ts hrest
      (show (cellsAll ts).card ≤ depth by omega)
    refine ⟨t' :: ts', a₂, ?_, by rw [nodes, nodes, htn, htsn], ?_⟩
    · simp only [List.map_cons, Arena.each, ht, hts, Option.bind_eq_bind, Option.bind_some]
      rfl
    · rw [ha₂, ha₁, cellsAll]
      abel

end

theorem Arena.copy?_of_cells {a : Arena} {t : Numbered} {frame : Multiset Cell}
    (h : a.cells = t.cells + frame) :
    ∃ (t' : Numbered) (a' : Arena), a.copy? t.id = some (t'.id, a') ∧ t'.node = t.node ∧
      a'.cells = t'.cells + a.cells :=
  t.copyWithin h (card_le_size h)

end PathTemplate.Tree
