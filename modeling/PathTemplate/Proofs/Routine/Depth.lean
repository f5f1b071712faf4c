import PathTemplate.Proofs.Routine.Generation
import PathTemplate.Proofs.Tree.Compaction

/-!
The depth limit. The generator fails at the first node that nests too deep and nowhere else; which
node that is can be read off the tree, and merging common paths does not change it.
-/

namespace PathTemplate.Routine

open PathTemplate.Tree

mutual

def tooDeep? (max depth : Nat) : Node → Option Span
  | .mk kind _ span children otherwise =>
    if max < depth then some span
    else
      match kind with
      | .literal _ | .print _ | .default _ => none
      | .root .. | .notFound _ => tooDeepAll? max depth children
      | .optionalGuard | .nullableGuard =>
        (tooDeepAll? max (depth + 1) children).or (tooDeepAll? max (depth + 1) otherwise)
      | .orFallback =>
        (tooDeepEach? max (depth + 1) children).or (tooDeepAll? max (depth + 1) otherwise)
      | _ => tooDeepAll? max (depth + 1) children

def tooDeepAll? (max depth : Nat) : List Node → Option Span
  | [] => none
  | n :: ns => (tooDeep? max depth n).or (tooDeepAll? max depth ns)

/-- The same for alternatives. One that is a concatenation is not looked at itself. -/
def tooDeepEach? (max depth : Nat) : List Node → Option Span
  | [] => none
  | .mk .concatenation _ _ children _ :: ns =>
    (tooDeepAll? max (depth + 1) children).or (tooDeepEach? max depth ns)
  | n :: ns => (tooDeep? max depth n).or (tooDeepEach? max depth ns)

end

theorem tooDeepEach?_other {n : Node} (h : n.kind ≠ .concatenation) (max depth : Nat)
    (ns : List Node) :
    tooDeepEach? max depth (n :: ns) = (tooDeep? max depth n).or (tooDeepEach? max depth ns) := by
  rw [tooDeepEach?]
  rintro ty span children otherwise rfl
  exact h rfl

/-- A generation that fails at a place, or succeeds if there is none. -/
def StopsAt {α : Type} (max : Nat) (x : Except DepthError α) : Option Span → Prop
  | none => ∃ a, x = .ok a
  | some span => x = .error ⟨max, span⟩

namespace StopsAt

variable {α β : Type} {max : Nat}

theorem bind {x : Except DepthError α} {f : α → Except DepthError β} {o o' : Option Span}
    (hx : StopsAt max x o) (hf : ∀ a, StopsAt max (f a) o') : StopsAt max (x >>= f) (o.or o') := by
  cases o with
  | none =>
    obtain ⟨a, rfl⟩ := hx
    exact hf a
  | some span =>
    have hx : x = .error ⟨max, span⟩ := hx
    subst hx
    rfl

theorem map {x : Except DepthError α} {o : Option Span} (hx : StopsAt max x o) (f : α → β) :
    StopsAt max (do let a ← x; return f a) o := by
  have h := hx.bind (f := fun a => pure (f a)) fun a => show StopsAt max _ none from ⟨f a, rfl⟩
  rwa [Option.or_none] at h

theorem error_iff {x : Except DepthError α} {o : Option Span} (h : StopsAt max x o)
    (e : DepthError) : x = .error e ↔ o.map (DepthError.mk max) = some e := by
  cases o with
  | none =>
    obtain ⟨a, rfl⟩ := h
    simp
  | some span =>
    have h : x = .error ⟨max, span⟩ := h
    simp [h]

end StopsAt

mutual

theorem node_stopsAt (max : Nat) (cx : Context) (s : Supply) :
    (n : Node) → StopsAt max (node max cx n s) (tooDeep? max cx.depth n)
  | .mk kind ty span children otherwise => by
    by_cases hd : max < cx.depth
    · cases kind <;> simp [node, tooDeep?, hd, StopsAt]
    have hbelow := fun value s => block_stopsAt max (cx.descend value ty) s children
    have haside := fun s => block_stopsAt max cx.deeper s otherwise
    cases kind with
    | literal | print | default => simp [node, tooDeep?, hd, StopsAt, pure, Except.pure]
    | root =>
      simp only [node, tooDeep?, hd, if_false]
      exact block_stopsAt max cx s children
    | notFound name =>
      simp only [node, tooDeep?, hd, if_false]
      exact (block_stopsAt max cx s children).map _
    | field | method | mapAccess | math | cast | function =>
      simp only [node, tooDeep?, hd, if_false]
      exact (hbelow _ _).map _
    | optionalGuard | nullableGuard =>
      simp only [node, tooDeep?, hd, if_false]
      exact (hbelow _ _).bind fun r => (haside r.2).map _
    | orFallback =>
      simp only [node, tooDeep?, hd, if_false]
      exact (alternatives_stopsAt max _ _ children).bind fun r => (haside r.2).map _
    | concatenation =>
      simp only [node, tooDeep?, hd, if_false]
      exact (block_stopsAt max (cx.deeper.into s.sink.1) s.sink.2 children).map _

theorem block_stopsAt (max : Nat) (cx : Context) (s : Supply) :
    (ns : List Node) → StopsAt max (block max cx ns s) (tooDeepAll? max cx.depth ns)
  | [] => ⟨_, rfl⟩
  | n :: ns => by
    unfold block tooDeepAll?
    exact (node_stopsAt max cx s n).bind fun r => (block_stopsAt max cx r.2 ns).map _

theorem alternatives_stopsAt (max : Nat) (cx : Context) (s : Supply) :
    (ns : List Node) → StopsAt max (alternatives max cx ns s) (tooDeepEach? max cx.depth ns)
  | [] => ⟨_, rfl⟩
  | .mk kind ty span children otherwise :: ns => by
    by_cases hk : kind = .concatenation
    · subst hk
      rw [alternatives_concatenation, tooDeepEach?]
      exact (block_stopsAt max cx.deeper s children).bind fun r =>
        (alternatives_stopsAt max cx r.2 ns).map _
    · rw [alternatives_other (by exact hk), tooDeepEach?_other (by exact hk)]
      exact (node_stopsAt max cx s _).bind fun r => (alternatives_stopsAt max cx r.2 ns).map _

end

theorem ofTree_stopsAt (max : Nat) (name : String) (n : Node) :
    StopsAt max (ofTree max name n) (tooDeepAll? max 0 n.children) :=
  (block_stopsAt max ⟨0, 0, 0, n.ty⟩ .empty n.children).map _

mutual

theorem tooDeep?_mono (max : Nat) {less depth : Nat} (hle : less ≤ depth) :
    (n : Node) → tooDeep? max depth n = none → tooDeep? max less n = none
  | .mk kind ty span children otherwise, h => by
    have hc := tooDeepAll?_mono max (Nat.succ_le_succ hle) children
    have ho := tooDeepAll?_mono max (Nat.succ_le_succ hle) otherwise
    have he := tooDeepEach?_mono max (Nat.succ_le_succ hle) children
    have hsame := tooDeepAll?_mono max hle children
    unfold tooDeep? at h ⊢
    split at h
    · cases h
    next hd =>
      rw [if_neg (by omega)]
      cases kind with
      | literal | print | default => rfl
      | root | notFound => exact hsame h
      | optionalGuard | nullableGuard =>
        obtain ⟨h, h'⟩ := Option.or_eq_none_iff.mp h
        exact Option.or_eq_none_iff.mpr ⟨hc h, ho h'⟩
      | orFallback =>
        obtain ⟨h, h'⟩ := Option.or_eq_none_iff.mp h
        exact Option.or_eq_none_iff.mpr ⟨he h, ho h'⟩
      | _ => exact hc h

theorem tooDeepAll?_mono (max : Nat) {less depth : Nat} (hle : less ≤ depth) :
    (ns : List Node) → tooDeepAll? max depth ns = none → tooDeepAll? max less ns = none
  | [], _ => rfl
  | n :: ns, h => by
    obtain ⟨hn, hns⟩ := Option.or_eq_none_iff.mp h
    exact Option.or_eq_none_iff.mpr ⟨tooDeep?_mono max hle n hn, tooDeepAll?_mono max hle ns hns⟩

theorem tooDeepEach?_mono (max : Nat) {less depth : Nat} (hle : less ≤ depth) :
    (ns : List Node) → tooDeepEach? max depth ns = none → tooDeepEach? max less ns = none
  | [], _ => rfl
  | .mk kind ty span children otherwise :: ns, h => by
    have hrest := tooDeepEach?_mono max hle ns
    by_cases hk : kind = .concatenation
    · subst hk
      have hc := tooDeepAll?_mono max (Nat.succ_le_succ hle) children
      rw [tooDeepEach?] at h ⊢
      obtain ⟨h, h'⟩ := Option.or_eq_none_iff.mp h
      exact Option.or_eq_none_iff.mpr ⟨hc h, hrest h'⟩
    · rw [tooDeepEach?_other (by exact hk)] at h ⊢
      obtain ⟨h, h'⟩ := Option.or_eq_none_iff.mp h
      exact Option.or_eq_none_iff.mpr ⟨tooDeep?_mono max hle _ h, hrest h'⟩

end

section Merging

variable {ρ : Type} {scope : Scope ρ} {max depth : Nat}

theorem tooDeepAll?_append (a b : List Node) :
    tooDeepAll? max depth (a ++ b) = (tooDeepAll? max depth a).or (tooDeepAll? max depth b) := by
  induction a with
  | nil => simp [tooDeepAll?]
  | cons n ns ih => simp only [List.cons_append, tooDeepAll?, ih, Option.or_assoc]

theorem tooDeep?_of_lt (h : max < depth) (n : Node) : tooDeep? max depth n = some n.span := by
  cases n
  simp [tooDeep?, h, Node.span]

theorem tooDeepAll?_constant {l : List Node} (hd : depth ≤ max)
    (h : ∀ n ∈ l, n.kind.isConstant) : tooDeepAll? max depth l = none := by
  induction l with
  | nil => rfl
  | cons n ns ih =>
    have hn := h n (by simp)
    obtain ⟨kind, ty, span, children, otherwise⟩ := n
    have hns := ih fun n hn => h n (by simp [hn])
    have hle : ¬max < depth := by omega
    cases kind with
    | literal | default => simp [tooDeepAll?, tooDeep?, hle, hns]
    | _ => simp [Node.kind, NodeKind.isConstant] at hn

theorem tooDeepAll?_prefix {a : List Node} (hd : max < depth) (ha : a ≠ []) (b : List Node) :
    tooDeepAll? max depth (a ++ b) = tooDeepAll? max depth a := by
  cases a with
  | nil => exact absurd rfl ha
  | cons n ns => simp [tooDeepAll?, tooDeep?_of_lt hd]

/-- The second list of a guard never decides: it has only constants, and it comes after children
that are just as deep. -/
theorem tooDeep?_mergeable {cur : FlaggedTy} {n : Node} (h : Typed scope cur n)
    (hm : n.kind.isMergeable) :
    tooDeep? max depth n =
      if max < depth then some n.span else tooDeepAll? max (depth + 1) n.children := by
  obtain ⟨kind, ty, span, children, otherwise⟩ := n
  have hguard : children ≠ [] → (∀ c ∈ otherwise, c.kind.isConstant) →
      (tooDeepAll? max (depth + 1) children).or (tooDeepAll? max (depth + 1) otherwise) =
        tooDeepAll? max (depth + 1) children := by
    intro hc ho
    by_cases hd : max < depth + 1
    · rw [← tooDeepAll?_append, tooDeepAll?_prefix hd hc]
    · rw [tooDeepAll?_constant (by omega) ho, Option.or_none]
  have hf := h.fits
  cases kind with
  | optionalGuard => simp only [tooDeep?, Node.span, Node.children, hguard hf.2.2.1 hf.2.2.2]
  | nullableGuard => simp only [tooDeep?, Node.span, Node.children, hguard hf.2.2.2.1 hf.2.2.2.2]
  | field | method | mapAccess | math | cast | function => rfl
  | _ => simp [Node.kind, NodeKind.isMergeable] at hm

theorem tooDeep?_merge {cur : FlaggedTy} {keep other : Node} {separators : List Node}
    (hs : sameHead keep other) (hl : ∀ n ∈ separators, n.kind.isLiteral)
    (hk : Typed scope cur keep) (ho : Typed scope cur other)
    (hsep : ∀ n ∈ separators, Typed scope cur n) :
    tooDeep? max depth (merge keep other separators) =
      tooDeepAll? max depth (keep :: (separators ++ [other])) := by
  obtain ⟨hty, hm, hkind⟩ := sameHead_iff.mp hs
  have hconst : ∀ n ∈ separators, n.kind.isConstant :=
    fun n hn => isConstant_of_isLiteral (hl n hn)
  have hmerged := Typed.merge hs hl hk ho hsep
  rw [tooDeepAll?, tooDeepAll?_append, tooDeep?_mergeable hmerged (by exact hm),
    tooDeep?_mergeable hk hm]
  by_cases hd : max < depth
  · simp [hd, merge, Node.span]
  · simp only [hd, if_false, tooDeepAll?, Option.or_none, merge, Node.children_mk]
    rw [tooDeep?_mergeable ho (by rw [← hkind]; exact hm),
      tooDeepAll?_constant (Nat.le_of_not_lt hd) hconst]
    simp only [hd, if_false, Option.none_or]
    by_cases hd' : max < depth + 1
    · have hne := hk.children_ne_nil hm
      rw [List.append_assoc, tooDeepAll?_prefix hd' hne, ← tooDeepAll?_append,
        tooDeepAll?_prefix hd' hne]
    · rw [tooDeepAll?_append, tooDeepAll?_append, tooDeepAll?_constant (by omega) hconst,
        Option.or_none]

theorem tooDeepAll?_absorb {cur : FlaggedTy} {n : Node} {rest : List Node}
    (h : ∀ c ∈ n :: rest, Typed scope cur c) :
    tooDeepAll? max depth ((absorb n rest).1 :: (absorb n rest).2.2) =
      tooDeepAll? max depth (n :: rest) := by
  refine (absorb_keeps (P := fun k r => (∀ c ∈ k :: r, Typed scope cur c) ∧
    tooDeepAll? max depth (k :: r) = tooDeepAll? max depth (n :: rest)) ?_ n rest ⟨h, rfl⟩).2
  rintro keep separators other after hl hs ⟨ht, h⟩
  have hk := ht keep (by simp)
  have ho := ht other (by simp)
  have hsep : ∀ n ∈ separators, Typed scope cur n := fun n hn => ht n (by simp [hn])
  refine ⟨fun c hc => ?_, ?_⟩
  · rcases List.mem_cons.mp hc with rfl | hc
    · exact .merge hs hl hk ho hsep
    · exact ht c (by simp [hc])
  · rw [← h, tooDeepAll?, tooDeep?_merge hs hl hk ho hsep, ← tooDeepAll?_append]
    simp

theorem tooDeep?_congr {kind : NodeKind} {ty : FlaggedTy} {span : Span}
    {children children' otherwise otherwise' : List Node}
    (hc : ∀ depth, tooDeepAll? max depth children' = tooDeepAll? max depth children)
    (ho : ∀ depth, tooDeepAll? max depth otherwise' = tooDeepAll? max depth otherwise)
    (he : kind = .orFallback → ∀ depth,
      tooDeepEach? max depth children' = tooDeepEach? max depth children) :
    tooDeep? max depth (.mk kind ty span children' otherwise') =
      tooDeep? max depth (.mk kind ty span children otherwise) := by
  cases kind with
  | orFallback => simp only [tooDeep?, he rfl, ho]
  | _ => simp only [tooDeep?, hc, ho]

theorem tooDeepAll?_compactList (l : List Node) :
    ∀ cur, (∀ c ∈ l, Typed scope cur c) →
      (∀ depth, tooDeepAll? max depth (compactList l).1 = tooDeepAll? max depth l) ∧
      ((∀ c ∈ l, c.kind = .concatenation) →
        ∀ depth, tooDeepEach? max depth (compactList l).1 = tooDeepEach? max depth l) := by
  induction l using neighbours_induction with
  | nil =>
    intro cur _
    rw [compactList]
    exact ⟨fun _ => rfl, fun _ _ => rfl⟩
  | cons n rest ihc iho iha =>
    intro cur h
    have hr := absorb_typed h
    have ha := iha cur fun c hc => hr c (by simp [hc])
    have hr := hr (absorb n rest).1 (by simp)
    have hchildren : ∀ depth, tooDeepAll? max depth (compactList (absorb n rest).1.children).1 =
        tooDeepAll? max depth (absorb n rest).1.children := by
      revert hr ihc
      obtain ⟨kind, ty, span, children, otherwise⟩ := (absorb n rest).1
      intro ihc hr
      exact (ihc _ hr.children).1
    have hn : ∀ depth, tooDeep? max depth (compact (absorb n rest).1).1 =
        tooDeep? max depth (absorb n rest).1 := by
      clear hchildren
      revert hr ihc iho
      obtain ⟨kind, ty, span, children, otherwise⟩ := (absorb n rest).1
      intro ihc iho hr depth
      have hc := ihc _ hr.children
      refine tooDeep?_congr hc.1 (iho _ hr.otherwise).1 ?_
      rintro rfl
      exact hc.2 hr.fits.2.1
    rw [compactList_cons]
    refine ⟨fun depth => ?_, fun hall depth => ?_⟩
    · rw [← tooDeepAll?_absorb h]
      simp only [tooDeepAll?, hn, ha.1]
    · have hu : absorb n rest = (n, 0, rest) :=
        absorb_unmergeable (by rw [hall n (by simp)]; rfl) rest
      simp only [hu] at hchildren ha ⊢
      have ha := ha.2 fun c hc => hall c (by simp [hc])
      have hk := hall n (by simp)
      obtain ⟨kind, ty, span, children, otherwise⟩ := n
      obtain rfl : kind = .concatenation := hk
      simp only [compact, Node.kind, Node.ty, Node.span, tooDeepEach?, ha]
      rw [hchildren]
      rfl

theorem ofTree_compact_error {cur : FlaggedTy} {n : Node} (h : ∀ c ∈ n.children, Typed scope cur c)
    (name name' : String) (e : DepthError) :
    ofTree max name (compact n).1 = .error e ↔ ofTree max name' n = .error e := by
  rw [(ofTree_stopsAt max name' n).error_iff, (ofTree_stopsAt max name (compact n).1).error_iff]
  have hdeep : tooDeepAll? max 0 (compactList n.children).1 = tooDeepAll? max 0 n.children :=
    (tooDeepAll?_compactList n.children cur h).1 0
  simp only [compact, Node.children_mk, hdeep]

end Merging

end PathTemplate.Routine
