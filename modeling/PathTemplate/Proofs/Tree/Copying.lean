import Mathlib.Data.Multiset.Pairwise
import Mathlib.Data.Set.Card
import PathTemplate.Proofs.Tree.InPlace

/-!
Copies of stored trees. Where the links from a node form a tree, that is the same as a tree with
numbered nodes whose cells are in the arena, and the nodes of the tree are those that the links lead
to. Main statement: its copy is an equal tree of new nodes and nothing else, and all old nodes are
as they were.
-/

namespace PathTemplate.Tree

namespace Arena

variable {a : Arena} {root id child other : Nat} {s : Slot}

/-- The links from a node form a finite tree: all of them lead to stored nodes, none to the node
itself, and no two to the same one. -/
structure FormsTree (a : Arena) (root : Nat) : Prop where
  stored : ∀ id, a.Reachable root id → id < a.size
  rootFree : ∀ id s, a.Reachable root id → a.get? id = some s → root ∉ s.references
  distinct : ∀ id s, a.Reachable root id → a.get? id = some s → s.references.Nodup
  parent : ∀ id id' s s' child, a.Reachable root id → a.Reachable root id' →
    a.get? id = some s → a.get? id' = some s' → child ∈ s.references → child ∈ s'.references →
    id = id'

theorem Reachable.trans (h : a.Reachable root id) (h' : a.Reachable id child) :
    a.Reachable root child := by
  induction h' with
  | root => exact h
  | step _ hs hchild ih => exact .step ih hs hchild

theorem Reachable.ofLink (hs : a.get? root = some s) (hchild : child ∈ s.references)
    (h : a.Reachable child id) : a.Reachable root id :=
  (Reachable.step .root hs hchild).trans h

theorem Reachable.last (h : a.Reachable root id) :
    id = root ∨ ∃ p s, a.Reachable root p ∧ a.get? p = some s ∧ id ∈ s.references := by
  cases h with
  | root => exact .inl rfl
  | step hp hs hid => exact .inr ⟨_, _, hp, hs, hid⟩

theorem FormsTree.get? (h : a.FormsTree root) (hid : a.Reachable root id) :
    ∃ s, a.get? id = some s :=
  ⟨_, List.getElem?_eq_getElem (h.stored id hid)⟩

theorem FormsTree.no_circle (h : a.FormsTree root) (hid : a.Reachable root id) :
    ∀ p s, a.Reachable id p → a.get? p = some s → id ∉ s.references := by
  induction hid with
  | root => exact h.rootFree
  | @step q child s hq hs hchild ih =>
    intro p s' hp hs' hlink
    -- The only node that names the child is its parent, which is then below the child.
    obtain rfl := h.parent q p s s' child hq ((hq.step hs hchild).trans hp) hs hs' hchild hlink
    rcases hp.last with rfl | ⟨p', s'', hp', hs'', hlast⟩
    · exact ih _ _ .root hs hchild
    · exact ih p' s'' (.ofLink hs hchild hp') hs'' hlast

theorem FormsTree.below (h : a.FormsTree root) (hid : a.Reachable root id) : a.FormsTree id where
  stored p hp := h.stored p (hid.trans hp)
  rootFree := h.no_circle hid
  distinct p s hp := h.distinct p s (hid.trans hp)
  parent p p' s s' child hp hp' := h.parent p p' s s' child (hid.trans hp) (hid.trans hp')

theorem FormsTree.apart (h : a.FormsTree root) (hs : a.get? root = some s)
    (hchild : child ∈ s.references) (hother : other ∈ s.references) (hne : child ≠ other)
    (hid : a.Reachable child id) : ¬ a.Reachable other id := by
  -- The root is not below its child.
  have hroot : ∀ {c}, c ∈ s.references → ¬ a.Reachable c root := fun hc hr =>
    (h.below (.step .root hs hc)).rootFree root s hr hs hc
  induction hid with
  | root =>
    intro hboth
    rcases hboth.last with heq | ⟨p, s', hp, hs', hlink⟩
    · exact hne heq
    · obtain rfl := h.parent root p s s' child .root (.ofLink hs hother hp) hs hs' hchild hlink
      exact hroot hother hp
  | @step q x s' hq hs' hx ih =>
    intro hboth
    rcases hboth.last with rfl | ⟨p, s'', hp, hs'', hlink⟩
    · obtain rfl := h.parent root q s s' x .root (.ofLink hs hchild hq) hs hs' hother hx
      exact hroot hchild hq
    · obtain rfl := h.parent q p s' s'' x (.ofLink hs hchild hq) (.ofLink hs hother hp)
        hs' hs'' hx hlink
      exact ih hp

end Arena

namespace Numbered

variable {a : Arena} {id child : Nat} {s : Slot}

def ids (t : Numbered) : Multiset Nat := t.cells.map Prod.fst

theorem mem_ids {t : Numbered} : id ∈ t.ids ↔ ∃ s, (id, s) ∈ t.cells := by
  simp [ids]

theorem id_mem_ids (t : Numbered) : t.id ∈ t.ids := by
  rw [ids, ← t.named_cells]
  exact Multiset.mem_cons_self _ _

theorem mem_ids_of_link {t : Numbered} (hs : (id, s) ∈ t.cells) (hchild : child ∈ s.references) :
    child ∈ t.ids := by
  rw [ids, ← t.named_cells]
  exact Multiset.mem_cons_of_mem (Multiset.mem_bind.mpr ⟨(id, s), hs, hchild⟩)

theorem get?_of_le {t : Numbered} (h : t.cells ≤ a.cells) (hs : (id, s) ∈ t.cells) :
    a.get? id = some s :=
  Arena.mem_cells.mp (Multiset.mem_of_le h hs)

mutual

theorem reachable_of_mem : (t : Numbered) → t.cells ≤ a.cells → ∀ {id s}, (id, s) ∈ t.cells →
    a.Reachable t.id id
  | .mk root kind ty span children otherwise, h, id, s, hmem => by
    have hroot := get?_of_le h (by rw [cells]; exact Multiset.mem_cons_self _ _)
    rw [cells] at h hmem
    have hbelow := (Multiset.le_cons_self _ _).trans h
    rcases Multiset.mem_cons.mp hmem with heq | hmem
    · cases heq
      exact .root
    rcases Multiset.mem_add.mp hmem with hmem | hmem
    · obtain ⟨c, hc, hreach⟩ :=
        reachable_of_mem_all children ((Multiset.le_add_right _ _).trans hbelow) hmem
      exact .ofLink hroot (List.mem_append_left _ hc) hreach
    · obtain ⟨c, hc, hreach⟩ :=
        reachable_of_mem_all otherwise ((Multiset.le_add_left _ _).trans hbelow) hmem
      exact .ofLink hroot (List.mem_append_right _ hc) hreach

theorem reachable_of_mem_all : (ts : List Numbered) → cellsAll ts ≤ a.cells →
    ∀ {id s}, (id, s) ∈ cellsAll ts → ∃ c ∈ ts.map Numbered.id, a.Reachable c id
  | [], _, _, _, hmem => by simp [cellsAll] at hmem
  | t :: ts, h, id, s, hmem => by
    rw [cellsAll] at h hmem
    rcases Multiset.mem_add.mp hmem with hmem | hmem
    · exact ⟨t.id, List.mem_cons_self,
        reachable_of_mem t ((Multiset.le_add_right _ _).trans h) hmem⟩
    · obtain ⟨c, hc, hreach⟩ :=
        reachable_of_mem_all ts ((Multiset.le_add_left _ _).trans h) hmem
      exact ⟨c, List.mem_cons_of_mem _ hc, hreach⟩

end

theorem reachable_iff {t : Numbered} (h : t.cells ≤ a.cells) :
    a.Reachable t.id id ↔ id ∈ t.ids := by
  constructor
  · intro hid
    induction hid with
    | root => exact t.id_mem_ids
    | step _ hs hchild ih =>
      obtain ⟨s', hs'⟩ := mem_ids.mp ih
      obtain rfl := Option.some.inj ((get?_of_le h hs').symm.trans hs)
      exact mem_ids_of_link hs' hchild
  · intro hid
    obtain ⟨s, hs⟩ := mem_ids.mp hid
    exact t.reachable_of_mem h hs

theorem nodup_ids {t : Numbered} (h : t.cells ≤ a.cells) : t.ids.Nodup :=
  Multiset.nodup_of_le (Multiset.map_le_map h) a.nodup_cells

theorem formsTree {t : Numbered} (h : t.cells ≤ a.cells) : a.FormsTree t.id := by
  have hnodup := nodup_ids h
  rw [ids, ← t.named_cells, Multiset.nodup_cons, named, Multiset.nodup_bind] at hnodup
  obtain ⟨hroot, hdistinct, hapart⟩ := hnodup
  have hcell : ∀ {id s}, a.Reachable t.id id → a.get? id = some s → (id, s) ∈ t.cells := by
    intro id s hid hs
    obtain ⟨s', hs'⟩ := mem_ids.mp ((reachable_iff h).mp hid)
    obtain rfl := Option.some.inj ((get?_of_le h hs').symm.trans hs)
    exact hs'
  constructor
  case stored =>
    intro id hid
    obtain ⟨s, hs⟩ := mem_ids.mp ((reachable_iff h).mp hid)
    exact (List.getElem?_eq_some_iff.mp (get?_of_le h hs)).1
  case rootFree =>
    intro id s hid hs hlink
    exact hroot (Multiset.mem_bind.mpr ⟨(id, s), hcell hid hs, hlink⟩)
  case distinct =>
    intro id s hid hs
    exact Multiset.coe_nodup.mp (hdistinct (id, s) (hcell hid hs))
  case parent =>
    intro id id' s s' child hid hid' hs hs' hchild hchild'
    by_contra hne
    have : Std.Symm (Function.onFun Disjoint fun c : Cell => (c.2.references : Multiset Nat)) :=
      ⟨fun _ _ h => h.symm⟩
    have hdisjoint : Disjoint (s.references : Multiset Nat) s'.references :=
      Multiset.Pairwise.forall hapart (hcell hid hs) (hcell hid' hs')
        fun heq => hne (congrArg Prod.fst heq)
    exact Multiset.disjoint_left.mp hdisjoint hchild hchild'

theorem mem_cellsAll {ts : List Numbered} {c : Cell} :
    c ∈ cellsAll ts ↔ ∃ t ∈ ts, c ∈ t.cells := by
  induction ts with
  | nil => simp [cellsAll]
  | cons t ts ih => simp [cellsAll, ih]

theorem cellsAll_le {ts : List Numbered} (h : ∀ t ∈ ts, t.cells ≤ a.cells)
    (hapart : ts.Pairwise fun t u => Disjoint t.ids u.ids) : cellsAll ts ≤ a.cells := by
  induction ts with
  | nil => exact Multiset.zero_le _
  | cons t ts ih =>
    obtain ⟨ht, hts⟩ := List.forall_mem_cons.mp h
    obtain ⟨hfirst, hrest⟩ := List.pairwise_cons.mp hapart
    have hdisjoint : Disjoint t.cells (cellsAll ts) := by
      refine Multiset.disjoint_left.mpr fun {c} hc hmore => ?_
      obtain ⟨u, hu, hcu⟩ := mem_cellsAll.mp hmore
      exact Multiset.disjoint_left.mp (hfirst u hu) (mem_ids.mpr ⟨c.2, hc⟩) (mem_ids.mpr ⟨c.2, hcu⟩)
    rw [cellsAll, Multiset.add_eq_union_iff_disjoint.mpr hdisjoint]
    exact Multiset.union_le ht (ih hts hrest)

end Numbered

open Numbered

namespace Arena

/-- Nodes whose links form a tree are a tree with numbered nodes. -/
theorem FormsTree.exists_numbered {a : Arena} {root : Nat} (h : a.FormsTree root) :
    ∃ t : Numbered, t.id = root ∧ t.cells ≤ a.cells := by
  -- Fewer nodes are below a child than below its parent.
  induction hn : {id | a.Reachable root id}.ncard using Nat.strong_induction_on
    generalizing root with
  | _ n ih =>
    obtain ⟨s, hs⟩ := h.get? .root
    have hfinite : {id | a.Reachable root id}.Finite :=
      (Set.finite_lt_nat a.size).subset fun id hid => h.stored id hid
    have hbelow : ∀ c ∈ s.references, ∃ t : Numbered, t.id = c ∧ t.cells ≤ a.cells := by
      intro c hc
      have htree := h.below (.step .root hs hc)
      refine ih _ ?_ htree rfl
      rw [← hn]
      refine Set.ncard_lt_ncard ⟨fun id hid => .ofLink hs hc hid, fun hsub => ?_⟩ hfinite
      exact htree.rootFree root s (hsub .root) hs hc
    have : Nonempty Numbered := ⟨.mk 0 s.kind s.ty s.span [] []⟩
    choose! below hid hle using hbelow
    have hmem : ∀ {c id}, c ∈ s.references → id ∈ (below c).ids → a.Reachable c id := by
      intro c id hc h
      have hreach := (reachable_iff (hle c hc)).mpr h
      rwa [hid c hc] at hreach
    have hids : ∀ cs : List Nat, cs ⊆ s.references → (cs.map below).map Numbered.id = cs := by
      intro cs hcs
      rw [List.map_map]
      exact (List.map_congr_left fun c hc => hid c (hcs hc)).trans (List.map_id cs)
    have hall : cellsAll (s.references.map below) ≤ a.cells := by
      refine cellsAll_le (List.forall_mem_map.mpr hle) (List.pairwise_map.mpr ?_)
      refine (h.distinct root s .root hs).imp_of_mem fun {c c'} hc hc' hne => ?_
      exact Multiset.disjoint_left.mpr fun hin hin' =>
        h.apart hs hc hc' hne (hmem hc hin) (hmem hc' hin')
    have hroot : (root, s) ∉ cellsAll (s.references.map below) := by
      intro hin
      obtain ⟨t, ht, hcell⟩ := mem_cellsAll.mp hin
      obtain ⟨c, hc, rfl⟩ := List.mem_map.mp ht
      exact (h.below (.step .root hs hc)).rootFree root s (hmem hc (mem_ids.mpr ⟨s, hcell⟩)) hs hc
    refine ⟨.mk root s.kind s.ty s.span (s.children.map below) (s.otherwise.map below), rfl, ?_⟩
    rw [Numbered.cells, ← cellsAll_append, ← List.map_append, hids _ (List.subset_append_left _ _),
      hids _ (List.subset_append_right _ _)]
    exact (Multiset.cons_le_of_notMem hroot).mpr ⟨mem_cells.mpr hs, hall⟩

theorem formsTree_iff {a : Arena} {root : Nat} :
    a.FormsTree root ↔ ∃ t : Numbered, t.id = root ∧ t.cells ≤ a.cells := by
  refine ⟨FormsTree.exists_numbered, ?_⟩
  rintro ⟨t, rfl, h⟩
  exact t.formsTree h

theorem ncard_reachable {a : Arena} {t : Numbered} (h : t.cells ≤ a.cells) :
    {id | a.Reachable t.id id}.ncard = t.cells.card := by
  have hset : {id | a.Reachable t.id id} = (t.ids.toFinset : Set Nat) := by
    ext id
    simp [reachable_iff h]
  rw [hset, Set.ncard_coe_finset, Multiset.toFinset_card_of_nodup (nodup_ids h), ids,
    Multiset.card_map]

/-- A tree beside all that was there before has the numbers that were free. -/
theorem mem_ids_iff_new {a a' : Arena} {t : Numbered} (h : a'.cells = t.cells + a.cells) {id : Nat} :
    id ∈ t.ids ↔ a.size ≤ id ∧ id < a'.size := by
  have ht : t.cells ≤ a'.cells := h ▸ Multiset.le_add_right _ _
  have hnodup := a'.nodup_cells
  rw [h, Multiset.map_add, Multiset.nodup_add] at hnodup
  rw [mem_ids]
  constructor
  · rintro ⟨s, hs⟩
    refine ⟨?_, (List.getElem?_eq_some_iff.mp (get?_of_le ht hs)).1⟩
    by_contra! hlt
    have hold := mem_cells.mpr (List.getElem?_eq_getElem hlt)
    exact Multiset.disjoint_left.mp hnodup.2.2 (mem_ids.mpr ⟨s, hs⟩)
      (Multiset.mem_map_of_mem Prod.fst hold)
  · rintro ⟨hge, hlt⟩
    have hs := mem_cells.mpr (List.getElem?_eq_getElem hlt)
    rw [h] at hs
    refine ⟨_, (Multiset.mem_add.mp hs).resolve_right fun hin => ?_⟩
    have hid : id < a.size := (List.getElem?_eq_some_iff.mp (mem_cells.mp hin)).1
    omega

theorem get?_kept {a a' : Arena} {t : Numbered} (h : a'.cells = t.cells + a.cells) {id : Nat}
    (hid : id < a.size) : a'.get? id = a.get? id := by
  have hs : a.get? id = some a.slots[id] := List.getElem?_eq_getElem hid
  rw [hs, ← mem_cells, h]
  exact Multiset.mem_add.mpr (.inr (mem_cells.mpr hs))

/-- A copy of a tree is an equal tree of new nodes, with its own links. It takes all nodes that were
added, as many as the tree has, and the old ones are as they were. -/
theorem copy_fresh {a : Arena} {root : Nat} (h : a.FormsTree root) :
    ∃ n copy a', a.tree? root = some n ∧ a.copy? root = some (copy, a') ∧
      a'.tree? copy = some n ∧ a'.FormsTree copy ∧
      (∀ id, a'.Reachable copy id ↔ a.size ≤ id ∧ id < a'.size) ∧
      (∀ id, id < a.size → a'.get? id = a.get? id) ∧
      a'.size = a.size + {id | a.Reachable root id}.ncard := by
  obtain ⟨t, rfl, ht⟩ := formsTree_iff.mp h
  obtain ⟨frame, hframe⟩ := Multiset.le_iff_exists_add.mp ht
  obtain ⟨t', a', hcopy, hnode, hcells⟩ := copy?_of_cells hframe
  have ht' : t'.cells ≤ a'.cells := hcells ▸ Multiset.le_add_right _ _
  have htree : a'.tree? t'.id = some t.node := hnode ▸ tree?_of_cells hcells
  have hfresh : ∀ id, a'.Reachable t'.id id ↔ a.size ≤ id ∧ id < a'.size := fun id =>
    (reachable_iff ht').trans (mem_ids_iff_new hcells)
  have hsize : a'.size = a.size + {id | a.Reachable t.id id}.ncard := by
    rw [ncard_reachable ht, ← weight_node t, ← hnode, weight_node, ← card_cells, hcells,
      Multiset.card_add, card_cells, Nat.add_comm]
  exact ⟨t.node, t'.id, a', tree?_of_cells hframe, hcopy, htree, formsTree_iff.mpr ⟨t', rfl, ht'⟩,
    hfresh, fun id => get?_kept hcells, hsize⟩

theorem copy_fresh_guard :
    let leaf (kind : NodeKind) : Slot := ⟨kind, ⟨.string, false, false⟩, ⟨0, 0⟩, [], []⟩
    let a : Arena := ⟨[leaf (.root "User" "text"), leaf (.literal "-"),
      { leaf .optionalGuard with children := [3], otherwise := [1] }, leaf (.print none)]⟩
    a.FormsTree 2 ∧ ∃ copy a', a.copy? 2 = some (copy, a') ∧ copy ≠ 2 ∧ a'.size = 7 ∧
      ∀ id, a'.Reachable copy id ↔ 4 ≤ id ∧ id < 7 := by
  intro leaf a
  let t : Numbered := .mk 2 .optionalGuard ⟨.string, false, false⟩ ⟨0, 0⟩
    [.mk 3 (.print none) ⟨.string, false, false⟩ ⟨0, 0⟩ [] []]
    [.mk 1 (.literal "-") ⟨.string, false, false⟩ ⟨0, 0⟩ [] []]
  have ht : t.cells ≤ a.cells := by decide
  have hlinks : a.FormsTree 2 := t.formsTree ht
  obtain ⟨n, copy, a', -, hcopy, -, -, hfresh, -, hsize⟩ := copy_fresh hlinks
  have hsize : a'.size = 7 := by
    exact hsize.trans (congrArg (4 + ·) (ncard_reachable ht))
  rw [hsize] at hfresh
  refine ⟨hlinks, copy, a', hcopy, ?_, hsize, hfresh⟩
  rintro rfl
  exact absurd ((hfresh 2).mp .root).1 (by decide)

end Arena

end PathTemplate.Tree
