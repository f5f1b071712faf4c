import PathTemplate.Proofs.Tree.Filling
import PathTemplate.Proofs.Tree.InPlace
import PathTemplate.Proofs.Tree.Stored

namespace PathTemplate.Tree

variable {ρ : Type}

mutual

/-- The nodes of a tree that is applied to values of a type, each with the type of the values that it
is applied to itself. -/
def Node.applied (cur : FlaggedTy) : Node → List (FlaggedTy × Node)
  | .mk kind ty span children otherwise =>
    (cur, .mk kind ty span children otherwise) ::
      (appliedAll (kind.passes cur ty) children ++ appliedAll cur otherwise)

def Node.appliedAll (cur : FlaggedTy) : List Node → List (FlaggedTy × Node)
  | [] => []
  | n :: ns => n.applied cur ++ appliedAll cur ns

end

mutual

theorem Node.map_applied (cur : FlaggedTy) : (n : Node) → (n.applied cur).map (·.2) = n.walk
  | .mk kind ty span children otherwise => by
    simp [Node.applied, Node.walk, Node.map_appliedAll]

theorem Node.map_appliedAll (cur : FlaggedTy) : (ns : List Node) →
    (Node.appliedAll cur ns).map (·.2) = Node.walkAll ns
  | [] => rfl
  | n :: ns => by simp [Node.appliedAll, Node.walkAll, Node.map_applied, Node.map_appliedAll]

end

/-- Kinds that write something by themselves, and have nothing below them. -/
def NodeKind.isFinal : NodeKind → Bool
  | .print _ | .literal _ | .default _ => true
  | _ => false

/-- Kinds that have no use for a value that is absent. -/
def NodeKind.needsValue : NodeKind → Bool
  | .field .. | .method .. | .mapAccess _ | .math .. | .cast _ | .concatenation => true
  | _ => false

/-- A node with the children that its kind asks for, where it is applied to values of type `cur`. -/
structure Proper (cur : FlaggedTy) (n : Node) : Prop where
  end_of_leaf : n.children = [] → n.kind.isFinal ∨ n.kind.isNotFound
  leaf_of_final : n.kind.isFinal → n.children = []
  missing : n.kind.isNotFound →
    n.children.length ≤ 1 ∧ ∀ c ∈ n.children, ∃ value, c.kind = .default value
  alternatives : n.kind = .orFallback →
    2 ≤ n.children.length ∧ ∀ c ∈ n.children, c.kind = .concatenation
  otherwise : ∀ c ∈ n.otherwise, c.kind.isConstant
  present : n.kind.needsValue → cur.isFlagged = false
  optional : n.kind = .optionalGuard → cur.optional ∧ n.ty = { cur with optional := false }
  nullable : n.kind = .nullableGuard → cur.nullable ∧ n.ty = { cur with nullable := false }

theorem Typed.end_of_leaf {s : Scope ρ} {cur : FlaggedTy} {n : Node} (h : Typed s cur n)
    (hn : n.kind.least ≤ n.children.length) (hc : n.children = []) :
    n.kind.isFinal ∨ n.kind.isNotFound := by
  have hmerge : n.kind.isMergeable = false := by
    rw [← Bool.not_eq_true]
    exact fun hm => h.children_ne_nil hm hc
  rw [hc] at hn
  obtain ⟨kind, ty, span, children, otherwise⟩ := n
  cases kind with
  | root => exact h.fits.elim
  | print | literal | default => exact .inl rfl
  | notFound => exact .inr rfl
  | concatenation | orFallback => simp [Node.kind, NodeKind.least] at hn
  | _ => simp [Node.kind, NodeKind.isMergeable] at hmerge

theorem Typed.otherwise_constant {s : Scope ρ} {cur : FlaggedTy} {n : Node} (h : Typed s cur n) :
    ∀ c ∈ n.otherwise, c.kind.isConstant := by
  have hmerge := h.otherwise_of_mergeable
  obtain ⟨kind, ty, span, children, otherwise⟩ := n
  have hf := h.fits
  have hnone : otherwise = [] → ∀ c ∈ otherwise, c.kind.isConstant := by simp_all
  cases kind with
  | root => exact hf.elim
  | optionalGuard => exact hf.2.2.2
  | nullableGuard => exact hf.2.2.2.2
  | orFallback => exact hf.2.2
  | literal | default | concatenation => exact hnone hf.2
  | notFound => exact hnone hf.2.2
  | print => exact hnone hf.2.2.2
  | _ => exact hnone (hmerge rfl rfl)

theorem Typed.present {s : Scope ρ} {cur : FlaggedTy} {n : Node} (h : Typed s cur n)
    (hn : n.kind.needsValue) : cur.isFlagged = false := by
  obtain ⟨kind, ty, span, children, otherwise⟩ := n
  have hf := h.fits
  cases kind with
  | field | method | mapAccess | math | cast | concatenation => exact hf.1
  | _ => simp [Node.kind, NodeKind.needsValue] at hn

theorem Typed.leaf_of_final {s : Scope ρ} {cur : FlaggedTy} {n : Node} (h : Typed s cur n)
    (hn : n.kind.isFinal) : n.children = [] := by
  obtain ⟨kind, ty, span, children, otherwise⟩ := n
  have hf := h.fits
  cases kind with
  | print => exact hf.2.2.1
  | literal | default => exact hf.1
  | _ => simp [Node.kind, NodeKind.isFinal] at hn

theorem Typed.missing_children {s : Scope ρ} {cur : FlaggedTy} {n : Node} (h : Typed s cur n)
    (hn : n.kind.isNotFound) :
    n.children.length ≤ 1 ∧ ∀ c ∈ n.children, ∃ value, c.kind = .default value := by
  obtain ⟨kind, ty, span, children, otherwise⟩ := n
  have hf := h.fits
  cases kind with
  | notFound => exact ⟨hf.1, hf.2.1⟩
  | _ => simp [Node.kind, NodeKind.isNotFound] at hn

/-- A typed node has the children that its kind asks for, if they are not too few. -/
theorem Typed.proper {s : Scope ρ} {cur : FlaggedTy} {n : Node} (h : Typed s cur n)
    (hn : n.kind.least ≤ n.children.length) : Proper cur n where
  end_of_leaf := h.end_of_leaf hn
  leaf_of_final := h.leaf_of_final
  missing := h.missing_children
  alternatives hk := by
    obtain ⟨kind, ty, span, children, otherwise⟩ := n
    obtain rfl : kind = .orFallback := hk
    obtain ⟨-, hc, -⟩ := h.fits
    exact ⟨hn, hc⟩
  otherwise := h.otherwise_constant
  present := h.present
  optional hk := by
    obtain ⟨kind, ty, span, children, otherwise⟩ := n
    obtain rfl : kind = .optionalGuard := hk
    obtain ⟨hcur, hty, -⟩ := h.fits
    exact ⟨hcur, hty⟩
  nullable hk := by
    obtain ⟨kind, ty, span, children, otherwise⟩ := n
    obtain rfl : kind = .nullableGuard := hk
    obtain ⟨hopt, hcur, hty, -⟩ := h.fits
    refine ⟨hcur, hty.trans ?_⟩
    -- The check for a missing value comes first, so that the other flag is off already.
    rw [FlaggedTy.present, FlaggedTy.plain, hopt]

mutual

theorem Node.applied_proper {s : Scope ρ} {cur : FlaggedTy} :
    (n : Node) → Typed s cur n → n.Filled → ∀ p ∈ n.applied cur, Proper p.1 p.2
  | .mk kind ty span children otherwise, ht, hf => by
    rw [Node.applied, List.forall_mem_cons, List.forall_mem_append]
    exact ⟨ht.proper hf.least_le, Node.appliedAll_proper children ht.children hf.children,
      Node.appliedAll_proper otherwise ht.otherwise hf.otherwise⟩

theorem Node.appliedAll_proper {s : Scope ρ} {cur : FlaggedTy} :
    (ns : List Node) → (∀ n ∈ ns, Typed s cur n) → (∀ n ∈ ns, n.Filled) →
      ∀ p ∈ Node.appliedAll cur ns, Proper p.1 p.2
  | [], _, _ => by simp [Node.appliedAll]
  | n :: ns, ht, hf => by
    obtain ⟨htn, hts⟩ := List.forall_mem_cons.mp ht
    obtain ⟨hfn, hfs⟩ := List.forall_mem_cons.mp hf
    rw [Node.appliedAll, List.forall_mem_append]
    exact ⟨Node.applied_proper n htn hfn, Node.appliedAll_proper ns hts hfs⟩

end

structure WellShaped (input sink : String) (n : Node) : Prop where
  kind : n.kind = .root input sink
  otherwise : n.otherwise = []
  proper : ∀ p ∈ Node.appliedAll (.plain (.record input)) n.children, Proper p.1 p.2

theorem wellShaped_root {s : Scope ρ} {sink : String} {children : List Node}
    (ht : ∀ n ∈ children, Typed s (.plain (.record s.input)) n) (hf : ∀ n ∈ children, n.Filled) :
    WellShaped s.input sink (.root s.input sink children) :=
  ⟨rfl, rfl, Node.appliedAll_proper children ht hf⟩

theorem ofTemplate_unshared {s : Scope ρ} {sink : String} {t : Template} {n : Node}
    (h : ofTemplate s sink t = .ok n) :
    ∃ root a a', Stored.ofTemplate s sink t = .ok (root, a) ∧
      a.tree? root = some n ∧ a.Unshared root ∧
      a.compact? root = some ((compact n).2, a') ∧
      a'.tree? root = some (compact n).1 ∧ a'.Unshared root := by
  obtain ⟨-, children, hroot, ht⟩ := ofTemplate_typed h
  have htallies := Stored.ofTemplate_tallies s sink t
  rw [h] at htallies
  cases hstored : Stored.ofTemplate s sink t with
  | error e =>
    rw [hstored] at htallies
    cases htallies
  | ok r =>
    obtain ⟨root, a⟩ := r
    rw [hstored] at htallies
    obtain ⟨k, rfl, rfl, ha⟩ := htallies.of_ok
    have hc : ∀ c ∈ k.node.children, Typed s (.plain (.record s.input)) c := by
      rw [hroot]
      exact ht
    have ho : ∀ c ∈ k.node.otherwise, Typed s (.plain (.record s.input)) c := by
      rw [hroot]
      simp [Node.root]
    obtain ⟨k', a', hcompact, hid, hnode, garbage, hgarbage, ha'⟩ := compact?_cells ha hc ho
    refine ⟨k.id, a, a', rfl, Arena.tree?_of_cells ha, Arena.unshared_of_cells ha inert_zero,
      hcompact, ?_⟩
    rw [← hid, ← hnode]
    exact ⟨Arena.tree?_of_cells ha', Arena.unshared_of_cells ha' (hgarbage.add inert_zero)⟩

/-- The tree of a template that can be read, as it is and with common paths merged. All its nodes are
proper, and in an arena none of them is shared. -/
theorem ofTemplate_wellShaped {s : Scope ρ} {src sink : String} {t : Template} {n : Node}
    (hparse : Template.parse src = .ok t) (h : ofTemplate s sink t = .ok n) :
    WellShaped s.input sink n ∧ WellShaped s.input sink (compact n).1 ∧
      ∃ root a a', Stored.ofTemplate s sink t = .ok (root, a) ∧
        a.tree? root = some n ∧ a.Unshared root ∧
        a.compact? root = some ((compact n).2, a') ∧
        a'.tree? root = some (compact n).1 ∧ a'.Unshared root := by
  refine ⟨?_, ?_, ofTemplate_unshared h⟩
  all_goals
    have hfilled := ofTemplate_filled (Template.parse_fits hparse) h
    obtain ⟨-, children, rfl, ht⟩ := ofTemplate_typed h
  · exact wellShaped_root ht hfilled
  · rw [compact_root]
    exact wellShaped_root (compactList_typed children _ ht)
      (compactList_filled children _ ht hfilled)

theorem ofTemplate_wellShaped_address :
    ∃ t n, Template.parse "${address.city}, ${address.zip}" = .ok t ∧
      ofTemplate addressScope "text" t = .ok n ∧ (compact n).2 = 2 ∧
      WellShaped "Person" "text" n ∧ WellShaped "Person" "text" (compact n).1 ∧
      ∃ root a a', Stored.ofTemplate addressScope "text" t = .ok (root, a) ∧
        a.tree? root = some n ∧ a.Unshared root ∧ a.compact? root = some ((compact n).2, a') ∧
        a'.tree? root = some (compact n).1 ∧ a'.Unshared root := by
  have hok : (Template.parse "${address.city}, ${address.zip}").toOption.any fun t =>
      (ofTemplate addressScope "text" t).toOption.any fun n => (compact n).2 == 2 := by
    decide +kernel
  simp only [Option.any_eq_true, beq_iff_eq] at hok
  obtain ⟨t, hparse, n, h, htwo⟩ := hok
  exact ⟨t, n, eq_ok_of_toOption hparse, eq_ok_of_toOption h, htwo,
    ofTemplate_wellShaped (eq_ok_of_toOption hparse) (eq_ok_of_toOption h)⟩

/-- Nothing hangs below the root of an empty template. -/
theorem ofTemplate_empty_bare :
    ¬ ∀ (src : String) (t : Template) (n : Node), Template.parse src = .ok t →
      ofTemplate addressScope "text" t = .ok n →
      ∀ m ∈ n.walk, m.children = [] → m.kind.isFinal ∨ m.kind.isNotFound := by
  intro h
  have hroot := h "" ⟨[]⟩ (.root "Person" "text" []) rfl rfl (.root "Person" "text" [])
    (by simp [Node.root, Node.walk]) rfl
  simp [Node.root, Node.kind, NodeKind.isFinal, NodeKind.isNotFound] at hroot

end PathTemplate.Tree
