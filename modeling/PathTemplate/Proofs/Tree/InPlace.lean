import PathTemplate.Proofs.Tree.Normal
import PathTemplate.Proofs.Tree.Storage
import PathTemplate.Tree.InPlace

namespace PathTemplate.Tree

variable {ρ : Type}

theorem absorb_step {keep other : Node} {rest after : List Node}
    (hd : rest.dropWhile (·.kind.isLiteral) = other :: after) (hs : sameHead keep other) :
    absorb keep rest =
      ((absorb (merge keep other (rest.takeWhile (·.kind.isLiteral))) after).1,
        (absorb (merge keep other (rest.takeWhile (·.kind.isLiteral))) after).2.1 + 1,
        (absorb (merge keep other (rest.takeWhile (·.kind.isLiteral))) after).2.2) := by
  rw [absorb]
  split
  next h => simp [hd] at h
  next other' after' h =>
    obtain ⟨rfl, rfl⟩ := List.cons.inj (h.symm.trans hd)
    rw [if_pos hs]

namespace Arena

variable {a b : Arena} {keep : Nat} {rest after : List Nat}

theorem absorbInto_stop
    (h : ∀ other after, rest.dropWhile a.isLiteralAt = other :: after →
      a.sameHeadAt keep other = false) : a.absorbInto keep rest = some (0, rest, a) := by
  rw [absorbInto]
  split
  next => rfl
  next other after hd => rw [if_neg (by simp [h other after hd])]

theorem absorbInto_step {other : Nat} {r : Nat × List Nat × Arena}
    (hd : rest.dropWhile a.isLiteralAt = other :: after) (hs : a.sameHeadAt keep other)
    (hb : a.mergeInto keep other (rest.takeWhile a.isLiteralAt) = some b)
    (hr : b.absorbInto keep after = some r) :
    a.absorbInto keep rest = some (r.1 + 1, r.2) := by
  rw [absorbInto]
  split
  next h => simp [hd] at h
  next other' after' h =>
    obtain ⟨rfl, rfl⟩ := List.cons.inj (h.symm.trans hd)
    simp only [if_pos hs, hb, hr, Option.bind_eq_bind, Option.bind_some]
    rfl

end Arena

namespace Numbered

theorem sameHead_node {k o : Numbered} :
    sameHead k.node o.node = (k.ty == o.ty && k.kind.isMergeable && k.kind == o.kind) := by
  cases k
  cases o
  rfl

mutual

theorem weight_node : (t : Numbered) → t.node.weight = t.cells.card
  | .mk id kind ty span children otherwise => by
    simp only [node, Node.weight, cells, Multiset.card_cons, Multiset.card_add,
      weight_nodes children, weight_nodes otherwise]
    omega

theorem weight_nodes : (ts : List Numbered) → weightAll (nodes ts) = (cellsAll ts).card
  | [] => by simp [nodes, weightAll, cellsAll]
  | t :: ts => by
    simp only [nodes, weightAll, cellsAll, Multiset.card_add, weight_node t, weight_nodes ts]

end

end Numbered

open Numbered

section Merging

variable {a : Arena} {frame : Multiset Cell} {k o : Numbered} {ts separators : List Numbered}

theorem get?_of_cells (h : a.cells = k.cells + frame) : a.get? k.id = some k.slot := by
  rw [k.cells_eq, Multiset.cons_add] at h
  exact Arena.get?_of_cells h

theorem each_copy? (ts : List Numbered) : ∀ {a : Arena} {frame : Multiset Cell},
    a.cells = cellsAll ts + frame →
      ∃ (ts' : List Numbered) (a' : Arena),
        Arena.each (fun id a => a.copy? id) (ts.map Numbered.id) a =
          some (ts'.map Numbered.id, a') ∧ ts'.map node = ts.map node ∧
        a'.cells = cellsAll ts' + a.cells := by
  induction ts with
  | nil =>
    intro a frame _
    exact ⟨[], a, rfl, rfl, by simp [cellsAll]⟩
  | cons t ts ih =>
    intro a frame h
    rw [cellsAll, add_assoc] at h
    obtain ⟨t', a₁, ht, htn, ha₁⟩ := Arena.copy?_of_cells h
    have hrest : a₁.cells = cellsAll ts + (t'.cells + t.cells + frame) := by
      rw [ha₁, h]
      abel
    obtain ⟨ts', a₂, hts, htsn, ha₂⟩ := ih hrest
    refine ⟨t' :: ts', a₂, ?_, by simp [htn, htsn], ?_⟩
    · simp only [List.map_cons, Arena.each, ht, hts, Option.bind_eq_bind, Option.bind_some]
      rfl
    · rw [ha₂, ha₁, cellsAll]
      abel

/-- A node without anything below it, left behind by a merge. -/
def emptied (o : Numbered) : Cell := (o.id, ⟨o.kind, o.ty, o.span, [], []⟩)

def gaining (k : Numbered) (more : List Numbered) : Numbered :=
  .mk k.id k.kind k.ty k.span (k.children ++ more) k.otherwise

/-- The cell of `o` is emptied, and that of `k` takes its children and the separators. -/
theorem moved_cells (ha : a.cells = k.cells + (o.cells + (cellsAll separators + frame))) :
    ((a.update o.id fun s => { s with children := [], otherwise := [] }).update k.id fun s =>
      { s with children :=
        s.children ++ separators.map Numbered.id ++ o.children.map Numbered.id }).cells =
      (gaining k (separators ++ o.children)).cells +
        (emptied o ::ₘ (cellsAll o.otherwise + frame)) := by
  have hother : a.cells = (o.id, o.slot) ::ₘ (k.cells + (cellsAll o.children +
      cellsAll o.otherwise + (cellsAll separators + frame))) := by
    rw [ha, o.cells_eq]
    simp only [← Multiset.singleton_add]
    abel
  have hemptied := Arena.cells_update hother fun s => { s with children := [], otherwise := [] }
  rw [k.cells_eq, Multiset.cons_add, Multiset.cons_swap] at hemptied
  rw [Arena.cells_update hemptied]
  simp only [gaining, emptied, slot, cells, cellsAll_append, List.map_append, List.append_assoc,
    ← Multiset.singleton_add]
  abel

theorem mergeInto_cells (ho : k.kind.hasOtherwise = false → o.otherwise = [])
    (ha : a.cells = k.cells + (o.cells + (cellsAll separators + frame))) :
    ∃ (k' : Numbered) (a' : Arena),
      a.mergeInto k.id o.id (separators.map Numbered.id) = some a' ∧ k'.id = k.id ∧
        k'.node = merge k.node o.node (separators.map node) ∧
        a'.cells = k'.cells + (emptied o ::ₘ frame) := by
  have hgetk := get?_of_cells ha
  have hgeto : a.get? o.id = some o.slot := by
    have hcells : a.cells = o.cells + (k.cells + (cellsAll separators + frame)) := by
      rw [ha]
      abel
    exact get?_of_cells hcells
  have hmoved := moved_cells ha
  generalize hb : (a.update o.id fun s => { s with children := [], otherwise := [] }).update k.id
    (fun s => { s with
      children := s.children ++ separators.map Numbered.id ++ o.children.map Numbered.id }) = b
    at hmoved
  cases hhas : k.kind.hasOtherwise with
  | false =>
    refine ⟨gaining k (separators ++ o.children), b, ?_, rfl, ?_, ?_⟩
    · simp only [Arena.mergeInto, hgetk, hgeto, slot, Option.bind_eq_bind, Option.bind_some, hhas,
        hb]
      rfl
    · simp [merge, gaining, node_eq k, node_eq o, node, nodes_eq_map, Node.kind, Node.ty, Node.span,
        hhas]
    · rw [hmoved, ho hhas, cellsAll, zero_add]
  | true =>
    -- The copies of the separators take new cells, and the guard names them and what `o` had.
    have hsep : b.cells = cellsAll separators +
        ((k.id, (gaining k (separators ++ o.children)).slot) ::ₘ
          (cellsAll k.children + cellsAll o.children + cellsAll k.otherwise +
            (emptied o ::ₘ (cellsAll o.otherwise + frame)))) := by
      rw [hmoved, cells_eq]
      simp only [gaining, Numbered.id, Numbered.children, Numbered.otherwise, cellsAll_append,
        ← Multiset.singleton_add]
      abel
    obtain ⟨copies, b', hcopies, hnodes, hb'⟩ := each_copy? separators hsep
    rw [hsep, Multiset.add_cons, Multiset.add_cons] at hb'
    have hrepeated := Arena.cells_update hb' fun s =>
      { s with
        otherwise := s.otherwise ++ copies.map Numbered.id ++ o.otherwise.map Numbered.id }
    refine ⟨.mk k.id k.kind k.ty k.span (k.children ++ separators ++ o.children)
      (k.otherwise ++ copies ++ o.otherwise), _, ?_, rfl, ?_, hrepeated.trans ?_⟩
    · simp only [Arena.mergeInto, hgetk, hgeto, slot, Option.bind_eq_bind, Option.bind_some, hhas,
        hb, if_true, hcopies]
      rfl
    · simp [merge, node_eq k, node_eq o, node, nodes_eq_map, Node.kind, Node.ty, Node.span, hhas,
        hnodes]
    · simp only [gaining, emptied, slot, cells, Numbered.children, Numbered.otherwise,
        Numbered.kind, Numbered.ty, Numbered.span, cellsAll_append, List.map_append,
        List.append_assoc, ← Multiset.singleton_add]
      abel

theorem split_nodes (ts : List Numbered) :
    (ts.map node).takeWhile (·.kind.isLiteral) = (ts.takeWhile (·.kind.isLiteral)).map node ∧
      (ts.map node).dropWhile (·.kind.isLiteral) = (ts.dropWhile (·.kind.isLiteral)).map node := by
  have hkind : ((fun n : Node => n.kind.isLiteral) ∘ node) = fun t => t.kind.isLiteral :=
    funext fun t => congrArg NodeKind.isLiteral t.kind_node
  rw [List.takeWhile_map, List.dropWhile_map, hkind]
  exact ⟨rfl, rfl⟩

theorem cells_of_mem (ht : o ∈ ts) (ha : a.cells = k.cells + (cellsAll ts + frame)) :
    ∃ others, a.cells = o.cells + others := by
  obtain ⟨before, after, rfl⟩ := List.append_of_mem ht
  refine ⟨k.cells + (cellsAll before + cellsAll after + frame), ?_⟩
  rw [ha, cellsAll_append, cellsAll]
  abel

theorem split_ids (ha : a.cells = k.cells + (cellsAll ts + frame)) :
    (ts.map Numbered.id).takeWhile a.isLiteralAt =
        (ts.takeWhile (·.kind.isLiteral)).map Numbered.id ∧
      (ts.map Numbered.id).dropWhile a.isLiteralAt =
        (ts.dropWhile (·.kind.isLiteral)).map Numbered.id := by
  have hlit : ∀ t ∈ ts, a.isLiteralAt t.id = t.kind.isLiteral := by
    intro t ht
    obtain ⟨others, h⟩ := cells_of_mem ht ha
    simp [Arena.isLiteralAt, get?_of_cells h, slot]
  clear ha
  induction ts with
  | nil => exact ⟨rfl, rfl⟩
  | cons t ts ih =>
    obtain ⟨ht, hts⟩ := List.forall_mem_cons.mp hlit
    obtain ⟨htake, hdrop⟩ := ih hts
    simp only [List.map_cons, List.takeWhile_cons, List.dropWhile_cons, ht]
    cases t.kind.isLiteral with
    | true => simp [htake, hdrop]
    | false => exact ⟨rfl, rfl⟩

theorem sameHeadAt_of_mem (ha : a.cells = k.cells + (cellsAll ts + frame)) (ho : o ∈ ts) :
    a.sameHeadAt k.id o.id = sameHead k.node o.node := by
  obtain ⟨others, h⟩ := cells_of_mem ho ha
  simp only [Arena.sameHeadAt, get?_of_cells ha, get?_of_cells h, slot, sameHead_node]

/-- Beside these cells and the frame, there is nothing in the arena but cells that name no others. -/
def Leaves (a : Arena) (cells frame : Multiset Cell) : Prop :=
  ∃ garbage, Inert garbage ∧ a.cells = cells + (garbage + frame)

theorem Leaves.of_cells {cells : Multiset Cell} (h : a.cells = cells + frame) :
    Leaves a cells frame :=
  ⟨0, inert_zero, by simpa using h⟩

theorem absorbInto_settled (ha : a.cells = k.cells + (cellsAll ts + frame))
    (h : ∀ o after, ts.dropWhile (·.kind.isLiteral) = o :: after →
      sameHead k.node o.node = false) :
    absorb k.node (ts.map node) = (k.node, 0, ts.map node) ∧
      a.absorbInto k.id (ts.map Numbered.id) = some (0, ts.map Numbered.id, a) := by
  have hids := (split_ids ha).2
  have hnodes := (split_nodes ts).2
  cases hrest : ts.dropWhile (·.kind.isLiteral) with
  | nil =>
    rw [hrest] at hids hnodes
    exact ⟨absorb_of_settled (by simp [firstMark?, hnodes]), Arena.absorbInto_stop (by simp [hids])⟩
  | cons o after =>
    have hmem : o ∈ ts := (List.dropWhile_suffix _).subset (hrest ▸ List.mem_cons_self)
    have hsame := sameHeadAt_of_mem ha hmem
    rw [h o after hrest] at hsame
    rw [hrest] at hids hnodes
    refine ⟨absorb_of_settled ?_, Arena.absorbInto_stop ?_⟩
    · simpa [firstMark?, hnodes] using h o after hrest
    · simpa [hids] using hsame

theorem absorbInto_merges {s : Scope ρ} {cur : FlaggedTy} {after : List Numbered}
    (ha : a.cells = k.cells + (cellsAll ts + frame))
    (ht : ∀ n ∈ k.node :: ts.map node, Typed s cur n)
    (hrest : ts.dropWhile (·.kind.isLiteral) = o :: after) (hs : sameHead k.node o.node) :
    ∃ (k' : Numbered) (b : Arena), k'.id = k.id ∧
      b.cells = k'.cells + (cellsAll after + (emptied o ::ₘ frame)) ∧
      (∀ n ∈ k'.node :: after.map node, Typed s cur n) ∧
      absorb k.node (ts.map node) = ((absorb k'.node (after.map node)).1,
        (absorb k'.node (after.map node)).2.1 + 1, (absorb k'.node (after.map node)).2.2) ∧
      ∀ r, b.absorbInto k.id (after.map Numbered.id) = some r →
        a.absorbInto k.id (ts.map Numbered.id) = some (r.1 + 1, r.2) := by
  obtain ⟨htake, hdrop⟩ := split_ids ha
  obtain ⟨htake', hdrop'⟩ := split_nodes ts
  have hsplit := List.takeWhile_append_dropWhile (p := fun t : Numbered => t.kind.isLiteral) (l := ts)
  have hlit : ∀ t ∈ ts.takeWhile (·.kind.isLiteral), t.kind.isLiteral :=
    List.all_eq_true.mp List.all_takeWhile
  rw [hrest] at hsplit hdrop hdrop'
  generalize ts.takeWhile (·.kind.isLiteral) = separators at hsplit htake htake' hlit
  have hsame : a.sameHeadAt k.id o.id := by
    rw [sameHeadAt_of_mem ha (by simp [← hsplit])]
    exact hs
  have hlist : ts.map node = separators.map node ++ o.node :: after.map node := by
    rw [← hsplit, List.map_append, List.map_cons]
  rw [hlist] at ht
  have ho : k.kind.hasOtherwise = false → o.otherwise = [] := by
    intro hno
    obtain ⟨-, hm, hkind⟩ := sameHead_iff.mp hs
    have hnone := (ht o.node (by simp)).otherwise_of_mergeable (hkind ▸ hm)
      (by rw [← hkind, kind_node, hno])
    simpa [node_eq o] using hnone
  have hmerged : a.cells = k.cells + (o.cells + (cellsAll separators + (cellsAll after + frame))) := by
    rw [ha, ← hsplit, cellsAll_append, cellsAll]
    abel
  obtain ⟨k', b, hb, hid, hnode, hcells⟩ := mergeInto_cells ho hmerged
  have htyped : Typed s cur k'.node := by
    rw [hnode]
    exact .merge hs (by simpa [kind_node] using hlit) (ht _ (by simp)) (ht _ (by simp))
      fun n hn => ht n (by simp [hn])
  have hstep := absorb_step hdrop' hs
  rw [htake', ← hnode] at hstep
  refine ⟨k', b, hid, by rw [hcells, ← Multiset.add_cons], ?_, hstep, fun r hr => ?_⟩
  · exact List.forall_mem_cons.mpr ⟨htyped, fun n hn => ht n (by simp [hn])⟩
  · exact Arena.absorbInto_step hdrop hsame (htake ▸ hb) hr

theorem absorbInto_cells {s : Scope ρ} {cur : FlaggedTy} (k : Numbered) (ts : List Numbered)
    {a : Arena} {frame : Multiset Cell} (ha : a.cells = k.cells + (cellsAll ts + frame))
    (ht : ∀ n ∈ k.node :: ts.map node, Typed s cur n) :
    ∃ (k' : Numbered) (ts' : List Numbered) (a' : Arena),
      a.absorbInto k.id (ts.map Numbered.id) =
          some ((absorb k.node (ts.map node)).2.1, ts'.map Numbered.id, a') ∧
        k'.id = k.id ∧ k'.node = (absorb k.node (ts.map node)).1 ∧
        ts'.map node = (absorb k.node (ts.map node)).2.2 ∧
        Leaves a' (k'.cells + cellsAll ts') frame := by
  by_cases hmerge : ∃ o after, ts.dropWhile (·.kind.isLiteral) = o :: after ∧
      sameHead k.node o.node
  · obtain ⟨o, after, hrest, hs⟩ := hmerge
    obtain ⟨k₁, b, hid, hb, ht₁, habsorb, hstep⟩ := absorbInto_merges ha ht hrest hs
    have hlen : after.length < ts.length := by
      have hle := (List.dropWhile_suffix (l := ts) (·.kind.isLiteral)).length_le
      rw [hrest, List.length_cons] at hle
      omega
    obtain ⟨k', ts', a', hr, hid', hkeep, hleft, garbage, hgarbage, ha'⟩ :=
      absorbInto_cells k₁ after hb ht₁
    rw [hid] at hr hid'
    rw [habsorb]
    refine ⟨k', ts', a', hstep _ hr, hid', hkeep, hleft, emptied o ::ₘ garbage,
      hgarbage.cons rfl, ?_⟩
    rw [ha', Multiset.add_cons, Multiset.cons_add]
  · obtain ⟨habsorb, hstop⟩ := absorbInto_settled ha fun o after hrest => by
      rw [← Bool.not_eq_true]
      exact fun hs => hmerge ⟨o, after, hrest, hs⟩
    rw [habsorb]
    exact ⟨k, ts, a, hstop, rfl, rfl, rfl, .of_cells (by rw [ha, add_assoc])⟩
  termination_by ts.length

/-- What merges neighbours with at most `bound` nodes in an arena as trees are merged. -/
def Merges (s : Scope ρ) (merge : List Nat → Arena → Option (List Nat × Nat × Arena))
    (bound : Nat) : Prop :=
  ∀ (cur : FlaggedTy) (ts : List Numbered) {a : Arena} {frame : Multiset Cell},
    a.cells = cellsAll ts + frame → (∀ n ∈ ts.map node, Typed s cur n) →
    weightAll (ts.map node) ≤ bound →
      ∃ (ts' : List Numbered) (a' : Arena),
        merge (ts.map Numbered.id) a =
            some (ts'.map Numbered.id, (compactList (ts.map node)).2, a') ∧
          ts'.map node = (compactList (ts.map node)).1 ∧ Leaves a' (cellsAll ts') frame

theorem Merges.compactBelow {s : Scope ρ}
    {merge : List Nat → Arena → Option (List Nat × Nat × Arena)} {bound : Nat}
    (hm : Merges s merge bound) {below aside : FlaggedTy} (ha : a.cells = k.cells + frame)
    (hc : ∀ n ∈ k.node.children, Typed s below n) (ho : ∀ n ∈ k.node.otherwise, Typed s aside n)
    (hwc : weightAll k.node.children ≤ bound) (hwo : weightAll k.node.otherwise ≤ bound) :
    ∃ (k' : Numbered) (a' : Arena),
      Arena.compactBelow merge k.id a = some ((compact k.node).2, a') ∧ k'.id = k.id ∧
        k'.node = (compact k.node).1 ∧ Leaves a' k'.cells frame := by
  have hchildren : k.node.children = k.children.map node := by rw [node_eq k, Node.children_mk]
  have hotherwise : k.node.otherwise = k.otherwise.map node := by rw [node_eq k, Node.otherwise_mk]
  rw [hchildren] at hc hwc
  rw [hotherwise] at ho hwo
  have hget := get?_of_cells ha
  rw [k.cells_eq] at ha
  have hbelow : a.cells = cellsAll k.children +
      (k.id, k.slot) ::ₘ (cellsAll k.otherwise + frame) := by
    rw [ha]
    simp only [← Multiset.singleton_add]
    abel
  obtain ⟨cs, a₁, hcs, hcsn, g₁, hg₁, ha₁⟩ := hm _ k.children hbelow hc hwc
  have haside : a₁.cells = cellsAll k.otherwise +
      (k.id, k.slot) ::ₘ (cellsAll cs + (g₁ + frame)) := by
    rw [ha₁]
    simp only [← Multiset.singleton_add]
    abel
  obtain ⟨os, a₂, hos, hosn, g₂, hg₂, ha₂⟩ := hm _ k.otherwise haside ho hwo
  have hput : a₂.cells = (k.id, k.slot) ::ₘ (cellsAll cs + cellsAll os + (g₂ + g₁ + frame)) := by
    rw [ha₂]
    simp only [← Multiset.singleton_add]
    abel
  refine ⟨.mk k.id k.kind k.ty k.span cs os, _, ?_, rfl, ?_, g₂ + g₁, hg₂.add hg₁,
    (Arena.cells_update hput fun s => { s with
      children := cs.map Numbered.id, otherwise := os.map Numbered.id }).trans ?_⟩
  · simp only [Arena.compactBelow, hget, slot, hcs, hos, Option.bind_eq_bind, Option.bind_some,
      compact, hchildren, hotherwise]
    rfl
  · simp [node_eq k, node, nodes_eq_map, compact, Node.kind, Node.ty, Node.span, hcsn, hosn]
  · rw [cells, Multiset.cons_add]
    rfl

theorem compactWithin_nil (bound : Nat) (ha : a.cells = cellsAll [] + frame) :
    ∃ (ts' : List Numbered) (a' : Arena), Arena.compactWithin bound [] a =
      some (ts'.map Numbered.id, (compactList []).2, a') ∧
        ts'.map node = (compactList []).1 ∧ Leaves a' (cellsAll ts') frame := by
  refine ⟨[], a, ?_, by simp [compactList], .of_cells ha⟩
  cases bound <;> simp [Arena.compactWithin, compactList]

theorem Merges.cons {s : Scope ρ} {bound : Nat} (hm : Merges s (Arena.compactWithin bound) bound)
    {cur : FlaggedTy} {t : Numbered} (ha : a.cells = cellsAll (t :: ts) + frame)
    (ht : ∀ n ∈ (t :: ts).map node, Typed s cur n)
    (hbound : weightAll ((t :: ts).map node) ≤ bound + 1) :
    ∃ (ts' : List Numbered) (a' : Arena),
      Arena.compactWithin (bound + 1) ((t :: ts).map Numbered.id) a =
          some (ts'.map Numbered.id, (compactList ((t :: ts).map node)).2, a') ∧
        ts'.map node = (compactList ((t :: ts).map node)).1 ∧ Leaves a' (cellsAll ts') frame := by
  rw [cellsAll, add_assoc] at ha
  rw [List.map_cons] at ht hbound
  obtain ⟨k, ts₁, a₁, habsorb, hid, hkeep, hrest, g₁, hg₁, ha₁⟩ := absorbInto_cells t ts ha ht
  have htyped := absorb_typed ht
  rw [← hkeep, ← hrest] at htyped
  have hweight := absorb_weight t.node (ts.map node)
  rw [← hkeep, ← hrest] at hweight
  have hw := t.node.weight_eq
  simp only [weightAll] at hbound
  have hk := htyped _ List.mem_cons_self
  have hkept : a₁.cells = k.cells + (cellsAll ts₁ + (g₁ + frame)) := by
    rw [ha₁]
    abel
  obtain ⟨k', a₂, hbelow, hid', hnode, g₂, hg₂, ha₂⟩ := hm.compactBelow hkept
    hk.of_mem_children hk.of_mem_otherwise (by omega) (by omega)
  have hafter : a₂.cells = cellsAll ts₁ + (k'.cells + (g₂ + g₁ + frame)) := by
    rw [ha₂]
    abel
  obtain ⟨out, a₃, hout, houtn, g₃, hg₃, ha₃⟩ := hm _ ts₁ hafter
    (fun n hn => htyped n (List.mem_cons_of_mem _ hn)) (by omega)
  have hnumber : (compactList (t.node :: ts.map node)).2 =
      (absorb t.node (ts.map node)).2.1 + (compact k.node).2 + (compactList (ts₁.map node)).2 := by
    rw [compactList, compact, hkeep, hrest]
    omega
  refine ⟨k' :: out, a₃, ?_, ?_, g₃ + g₂ + g₁, (hg₃.add hg₂).add hg₁, ?_⟩
  · rw [hid] at hbelow hid'
    simp only [List.map_cons, Arena.compactWithin, habsorb, hbelow, hout, hnumber, hid',
      Option.bind_eq_bind, Option.bind_some]
    rfl
  · rw [List.map_cons, List.map_cons, compactList_cons, ← hkeep, ← hrest, hnode, houtn]
  · rw [ha₃, cellsAll]
    abel

theorem compactWithin_merges (s : Scope ρ) (bound : Nat) :
    Merges s (Arena.compactWithin bound) bound := by
  induction bound with
  | zero =>
    intro cur ts a frame ha ht hbound
    cases ts with
    | nil => exact compactWithin_nil 0 ha
    | cons t ts =>
      have hw := t.node.weight_eq
      simp only [List.map_cons, weightAll] at hbound
      omega
  | succ bound ih =>
    intro cur ts a frame ha ht hbound
    cases ts with
    | nil => exact compactWithin_nil (bound + 1) ha
    | cons t ts => exact ih.cons ha ht hbound

theorem compact?_cells {s : Scope ρ} {below aside : FlaggedTy} (ha : a.cells = k.cells + frame)
    (hc : ∀ n ∈ k.node.children, Typed s below n) (ho : ∀ n ∈ k.node.otherwise, Typed s aside n) :
    ∃ (k' : Numbered) (a' : Arena), a.compact? k.id = some ((compact k.node).2, a') ∧
      k'.id = k.id ∧ k'.node = (compact k.node).1 ∧ Leaves a' k'.cells frame := by
  have hsize := Arena.card_le_size ha
  rw [← weight_node, k.node.weight_eq] at hsize
  exact (compactWithin_merges s a.size).compactBelow ha hc ho (by omega) (by omega)

end Merging

end PathTemplate.Tree
