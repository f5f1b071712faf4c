import PathTemplate.Proofs.Tree.Typing
import PathTemplate.Tree.Compact

namespace PathTemplate.Tree

variable {ρ σ : Type}

theorem sameHead_iff {a b : Node} :
    sameHead a b ↔ a.ty = b.ty ∧ a.kind.isMergeable ∧ a.kind = b.kind := by
  simp [sameHead, and_assoc]

theorem absorb_keeps {P : Node → List Node → Prop}
    (step : ∀ keep separators other after, (∀ n ∈ separators, n.kind.isLiteral) →
      sameHead keep other → P keep (separators ++ other :: after) →
      P (merge keep other separators) after)
    (keep : Node) (rest : List Node) (h : P keep rest) :
    P (absorb keep rest).1 (absorb keep rest).2.2 := by
  fun_induction absorb keep rest with
  | case1 => exact h
  | case2 keep rest separators other after hd hs keep' merged after' heq ih =>
    have hsplit : separators ++ other :: after = rest := by
      rw [← hd]
      exact List.takeWhile_append_dropWhile
    have hlit : ∀ n ∈ separators, n.kind.isLiteral :=
      List.all_eq_true.mp List.all_takeWhile
    rw [← hsplit] at h
    simpa [heq] using ih (step keep separators other after hlit hs h)
  | case3 => exact h

theorem absorb_unmergeable {keep : Node} (h : keep.kind.isMergeable = false) (rest : List Node) :
    absorb keep rest = (keep, 0, rest) := by
  unfold absorb
  split
  · rfl
  · simp [sameHead, h]

/-- A list of nodes that has fewer nodes of the same kinds, but is not empty for that. -/
structure Thins (l thin : List Node) : Prop where
  nil_iff : thin = [] ↔ l = []
  length_le : thin.length ≤ l.length
  kinds : ∀ c ∈ thin, ∃ d ∈ l, d.kind = c.kind

theorem Thins.all {l thin : List Node} (h : Thins l thin) {p : NodeKind → Prop}
    (hl : ∀ c ∈ l, p c.kind) : ∀ c ∈ thin, p c.kind := by
  intro c hc
  obtain ⟨d, hd, hk⟩ := h.kinds c hc
  rw [← hk]
  exact hl d hd

theorem Fits.thins {s : Scope ρ} {cur ty : FlaggedTy} {kind : NodeKind}
    {children children' otherwise otherwise' : List Node}
    (h : Fits s cur ty children otherwise kind) (hc : Thins children children')
    (ho : Thins otherwise otherwise') : Fits s cur ty children' otherwise' kind := by
  have hconst := ho.all (p := fun k => k.isConstant)
  cases kind with
  | root => exact h
  | literal | default => exact ⟨hc.nil_iff.mpr h.1, ho.nil_iff.mpr h.2⟩
  | print => exact ⟨h.1, h.2.1, hc.nil_iff.mpr h.2.2.1, ho.nil_iff.mpr h.2.2.2⟩
  | notFound =>
    exact ⟨Nat.le_trans hc.length_le h.1, hc.all (p := fun k => ∃ value, k = .default value) h.2.1,
      ho.nil_iff.mpr h.2.2⟩
  | field | method | mapAccess | function =>
    exact ⟨h.1, h.2.1, mt hc.nil_iff.mp h.2.2.1, ho.nil_iff.mpr h.2.2.2⟩
  | math =>
    exact ⟨h.1, h.2.1, h.2.2.1, h.2.2.2.1, mt hc.nil_iff.mp h.2.2.2.2.1,
      ho.nil_iff.mpr h.2.2.2.2.2⟩
  | cast =>
    exact ⟨h.1, h.2.1, h.2.2.1, mt hc.nil_iff.mp h.2.2.2.1, ho.nil_iff.mpr h.2.2.2.2⟩
  | optionalGuard => exact ⟨h.1, h.2.1, mt hc.nil_iff.mp h.2.2.1, hconst h.2.2.2⟩
  | nullableGuard =>
    exact ⟨h.1, h.2.1, h.2.2.1, mt hc.nil_iff.mp h.2.2.2.1, hconst h.2.2.2.2⟩
  | orFallback => exact ⟨h.1, hc.all (p := (· = .concatenation)) h.2.1, hconst h.2.2⟩
  | concatenation => exact ⟨h.1, ho.nil_iff.mpr h.2⟩

theorem Typed.retype {s : Scope ρ} {cur cur' : FlaggedTy} {n : Node} (h : Typed s cur n)
    (hl : n.kind.isLiteral) : Typed s cur' n := by
  obtain ⟨kind, ty, span, children, otherwise⟩ := n
  cases kind with
  | literal text =>
    obtain ⟨rfl, rfl⟩ := h.fits
    exact .mk ⟨rfl, rfl⟩ (by simp) (by simp)
  | _ => simp [Node.kind, NodeKind.isLiteral] at hl

theorem isConstant_of_isLiteral {kind : NodeKind} (h : kind.isLiteral) : kind.isConstant := by
  cases kind <;> simp_all [NodeKind.isLiteral, NodeKind.isConstant]

theorem constant_append {a b c : List Node} (ha : ∀ n ∈ a, n.kind.isConstant)
    (hb : ∀ n ∈ b, n.kind.isLiteral) (hc : ∀ n ∈ c, n.kind.isConstant) :
    ∀ n ∈ a ++ b ++ c, n.kind.isConstant := by
  intro n hn
  simp only [List.mem_append] at hn
  rcases hn with (hn | hn) | hn
  · exact ha n hn
  · exact isConstant_of_isLiteral (hb n hn)
  · exact hc n hn

theorem Fits.merge {s : Scope ρ} {cur ty : FlaggedTy} {kind : NodeKind}
    {kc ko seps oc oo : List Node} (hm : kind.isMergeable) (hl : ∀ n ∈ seps, n.kind.isLiteral)
    (hk : Fits s cur ty kc ko kind) (ho : Fits s cur ty oc oo kind) :
    Fits s cur ty (kc ++ seps ++ oc) (if kind.hasOtherwise then ko ++ seps ++ oo else ko) kind := by
  have hne : ∀ {a b c : List Node}, a ≠ [] → a ++ b ++ c ≠ [] := by simp_all
  cases kind with
  | field | method | mapAccess | function => exact ⟨hk.1, hk.2.1, hne hk.2.2.1, hk.2.2.2⟩
  | math => exact ⟨hk.1, hk.2.1, hk.2.2.1, hk.2.2.2.1, hne hk.2.2.2.2.1, hk.2.2.2.2.2⟩
  | cast => exact ⟨hk.1, hk.2.1, hk.2.2.1, hne hk.2.2.2.1, hk.2.2.2.2⟩
  | optionalGuard =>
    exact ⟨hk.1, hk.2.1, hne hk.2.2.1, constant_append hk.2.2.2 hl ho.2.2.2⟩
  | nullableGuard =>
    exact ⟨hk.1, hk.2.1, hk.2.2.1, hne hk.2.2.2.1, constant_append hk.2.2.2.2 hl ho.2.2.2.2⟩
  | _ => simp [NodeKind.isMergeable] at hm

theorem Typed.children_ne_nil {s : Scope ρ} {cur : FlaggedTy} {n : Node} (h : Typed s cur n)
    (hm : n.kind.isMergeable) : n.children ≠ [] := by
  obtain ⟨kind, ty, span, children, otherwise⟩ := n
  have hf := h.fits
  cases kind with
  | field | method | mapAccess | function | optionalGuard => exact hf.2.2.1
  | math => exact hf.2.2.2.2.1
  | cast | nullableGuard => exact hf.2.2.2.1
  | _ => simp [Node.kind, NodeKind.isMergeable] at hm

theorem Typed.merge {s : Scope ρ} {cur : FlaggedTy} {keep other : Node} {separators : List Node}
    (hs : sameHead keep other) (hl : ∀ n ∈ separators, n.kind.isLiteral)
    (hk : Typed s cur keep) (ho : Typed s cur other) (hsep : ∀ n ∈ separators, Typed s cur n) :
    Typed s cur (merge keep other separators) := by
  obtain ⟨kind, ty, span, kc, ko⟩ := keep
  obtain ⟨_, _, span', oc, oo⟩ := other
  obtain ⟨rfl, hm, rfl⟩ := sameHead_iff.mp hs
  refine .mk (hk.fits.merge hm hl ho.fits) ?_ ?_
  · have hbelow : ∀ n ∈ separators, Typed s (kind.passes cur ty) n :=
      fun n hn => (hsep n hn).retype (hl n hn)
    exact .of_mem_append (.of_mem_append hk.children hbelow) ho.children
  · show ∀ c ∈ if kind.hasOtherwise then ko ++ separators ++ oo else ko, Typed s cur c
    split
    · exact .of_mem_append (.of_mem_append hk.otherwise hsep) ho.otherwise
    · exact hk.otherwise

theorem absorb_typed {s : Scope ρ} {cur : FlaggedTy} {keep : Node} {rest : List Node}
    (h : ∀ c ∈ keep :: rest, Typed s cur c) :
    ∀ c ∈ (absorb keep rest).1 :: (absorb keep rest).2.2, Typed s cur c := by
  refine absorb_keeps (P := fun k r => ∀ c ∈ k :: r, Typed s cur c) ?_ keep rest h
  intro keep separators other after hl hs h c hc
  simp only [List.mem_cons, List.mem_append] at h hc
  rcases hc with rfl | hc
  · exact .merge hs hl (h _ (by simp)) (h _ (by simp)) fun n hn => h n (by simp [hn])
  · exact h c (by simp [hc])

theorem absorb_thins (keep : Node) (rest : List Node) :
    Thins (keep :: rest) ((absorb keep rest).1 :: (absorb keep rest).2.2) := by
  have h := absorb_keeps
    (P := fun k r => k.kind = keep.kind ∧ r.length ≤ rest.length ∧ ∀ c ∈ r, c ∈ rest)
    (fun k separators other after _ _ h => by
      obtain ⟨hk, hlen, hmem⟩ := h
      simp only [List.length_append, List.length_cons] at hlen
      exact ⟨hk, by omega, fun c hc => hmem c (by simp [hc])⟩)
    keep rest ⟨rfl, Nat.le_refl _, fun c hc => hc⟩
  obtain ⟨hk, hlen, hmem⟩ := h
  refine ⟨by simp, by simpa using hlen, fun c hc => ?_⟩
  rcases List.mem_cons.mp hc with rfl | hc
  · exact ⟨keep, by simp, hk.symm⟩
  · exact ⟨c, by simp [hmem c hc], rfl⟩

/-- Neighbours are merged into the first of them, then what hangs below it and what comes after. -/
theorem neighbours_induction {P : List Node → Prop} (nil : P [])
    (cons : ∀ n rest, P (absorb n rest).1.children → P (absorb n rest).1.otherwise →
      P (absorb n rest).2.2 → P (n :: rest)) (l : List Node) : P l := by
  induction l using compactList.induct with
  | case1 => exact nil
  | case2 n rest _ hc ho ha => exact cons n rest hc ho ha

theorem compactList_cons (n : Node) (rest : List Node) :
    (compactList (n :: rest)).1 =
      (compact (absorb n rest).1).1 :: (compactList (absorb n rest).2.2).1 := by
  rw [compactList]
  rfl

theorem compact_root (input sink : String) (children : List Node) :
    (compact (.root input sink children)).1 = .root input sink (compactList children).1 := by
  simp only [compact, Node.root, Node.kind, Node.ty, Node.span, Node.children_mk,
    Node.otherwise_mk, compactList]

theorem compactList_thins (l : List Node) : Thins l (compactList l).1 := by
  induction l using neighbours_induction with
  | nil => exact ⟨by simp [compactList], by simp [compactList], by simp [compactList]⟩
  | cons n rest _ _ ih =>
    have h := absorb_thins n rest
    rw [compactList_cons]
    refine ⟨by simp, ?_, fun c hc => ?_⟩
    · have hlen := h.length_le
      have hlen' := ih.length_le
      simp only [List.length_cons] at hlen ⊢
      omega
    · rcases List.mem_cons.mp hc with rfl | hc
      · exact h.kinds (absorb n rest).1 (by simp)
      · obtain ⟨d, hd, hk⟩ := ih.kinds c hc
        obtain ⟨e, he, hk'⟩ := h.kinds d (by simp [hd])
        exact ⟨e, he, hk'.trans hk⟩

theorem compactList_typed {s : Scope ρ} (l : List Node) :
    ∀ cur, (∀ c ∈ l, Typed s cur c) → ∀ c ∈ (compactList l).1, Typed s cur c := by
  induction l using neighbours_induction with
  | nil => simp [compactList]
  | cons n rest ihc iho iha =>
    intro cur h
    have hr := absorb_typed h
    rw [compactList_cons]
    intro c hc
    rcases List.mem_cons.mp hc with rfl | hc
    · have hn := hr (absorb n rest).1 (by simp)
      revert hn ihc iho
      obtain ⟨kind, ty, span, children, otherwise⟩ := (absorb n rest).1
      intro ihc iho hn
      exact .mk (hn.fits.thins (compactList_thins children) (compactList_thins otherwise))
        (ihc _ hn.children) (iho _ hn.otherwise)
    · exact iha cur (fun c hc => hr c (by simp [hc])) c hc

section Meaning

variable [Sink σ] (w : World ρ)

theorem walkAll_literals {l : List Node} (h : ∀ n ∈ l, n.kind.isLiteral) (cur cur' : FlaggedTy)
    (v v' : Value ρ) (s : σ) : walkAll w cur v l s = walkAll w cur' v' l s := by
  induction l generalizing s with
  | nil => rfl
  | cons n rest ih =>
    have hn := h n (by simp)
    obtain ⟨kind, ty, span, children, otherwise⟩ := n
    cases kind with
    | literal text =>
      simp only [walkAll, walk, World.computed?]
      exact ih (fun n hn => h n (by simp [hn])) _
    | _ => simp [Node.kind, NodeKind.isLiteral] at hn

theorem walk_merge {keep other : Node} {separators : List Node} (hs : sameHead keep other)
    (hl : ∀ n ∈ separators, n.kind.isLiteral) (cur : FlaggedTy) (v : Value ρ) (s : σ) :
    walk w cur v (merge keep other separators) s =
      walk w cur v other (walkAll w cur v separators (walk w cur v keep s)) := by
  obtain ⟨kind, ty, span, kc, ko⟩ := keep
  obtain ⟨_, _, span', oc, oo⟩ := other
  obtain ⟨rfl, hm, rfl⟩ := sameHead_iff.mp hs
  cases kind with
  | field | method | mapAccess | math | cast | function =>
    simp only [merge, Node.kind, Node.ty, Node.children, walk, World.computed?, walkAll_append]
    rw [walkAll_literals w hl ty cur _ v]
  | optionalGuard | nullableGuard =>
    simp only [merge, Node.kind, Node.ty, Node.children, Node.otherwise, walk, World.computed?,
      walkAll_append, NodeKind.hasOtherwise, if_true]
    cases hv : v.isNull with
    | true => rfl
    | false =>
      simp only [Bool.false_eq_true, if_false]
      rw [walkAll_literals w hl ty cur v v]
  | _ => simp [Node.kind, NodeKind.isMergeable] at hm

theorem walkAll_absorb (cur : FlaggedTy) (v : Value ρ) (n : Node) (rest : List Node) (s : σ) :
    walkAll w cur v ((absorb n rest).1 :: (absorb n rest).2.2) s = walkAll w cur v (n :: rest) s := by
  refine absorb_keeps
    (P := fun k r => walkAll w cur v (k :: r) s = walkAll w cur v (n :: rest) s) ?_ n rest rfl
  intro keep separators other after hl hs h
  rw [← h]
  simp only [walkAll, walkAll_append, walk_merge w hs hl]

theorem walk_congr {kind : NodeKind} {ty : FlaggedTy} {span : Span}
    {children children' otherwise otherwise' : List Node}
    (hc : ∀ cur v (s : σ), walkAll w cur v children' s = walkAll w cur v children s)
    (ho : ∀ cur v (s : σ), walkAll w cur v otherwise' s = walkAll w cur v otherwise s)
    (hf : kind = .orFallback → ∀ cur v (s : σ),
      firstWritten w cur v children' s = firstWritten w cur v children s)
    (cur : FlaggedTy) (v : Value ρ) (s : σ) :
    walk w cur v (.mk kind ty span children' otherwise') s =
      walk w cur v (.mk kind ty span children otherwise) s := by
  cases kind with
  | orFallback => simp only [walk, World.computed?, hf rfl, ho]
  | print default => cases default <;> rfl
  | _ => simp only [walk, World.computed?, hc, ho]

theorem walkAll_compactList {scope : Scope ρ} (l : List Node) :
    ∀ cur, (∀ c ∈ l, Typed scope cur c) →
      (∀ cur v (s : σ), walkAll w cur v (compactList l).1 s = walkAll w cur v l s) ∧
      ((∀ c ∈ l, c.kind = .concatenation) → ∀ cur v (s : σ),
        firstWritten w cur v (compactList l).1 s = firstWritten w cur v l s) := by
  induction l using neighbours_induction with
  | nil =>
    intro cur _
    rw [compactList]
    exact ⟨fun _ _ _ => rfl, fun _ _ _ _ => rfl⟩
  | cons n rest ihc iho iha =>
    intro cur h
    have hr := absorb_typed h
    have ha := iha cur fun c hc => hr c (by simp [hc])
    have hn : ∀ cur v (s : σ), walk w cur v (compact (absorb n rest).1).1 s =
        walk w cur v (absorb n rest).1 s := by
      have hn := hr (absorb n rest).1 (by simp)
      revert hn ihc iho
      obtain ⟨kind, ty, span, children, otherwise⟩ := (absorb n rest).1
      intro ihc iho hn
      have hc := ihc _ hn.children
      refine walk_congr w hc.1 (iho _ hn.otherwise).1 ?_
      rintro rfl
      exact hc.2 hn.fits.2.1
    rw [compactList_cons]
    refine ⟨fun cur v s => ?_, fun hall cur v s => ?_⟩
    · rw [← walkAll_absorb w cur v n rest s]
      simp only [walkAll, hn, ha.1]
    · -- Alternatives are not merged, so that what comes after the first is all the others.
      have hu : absorb n rest = (n, 0, rest) :=
        absorb_unmergeable (by rw [hall n (by simp)]; rfl) rest
      simp only [hu] at hn ha ⊢
      simp only [firstWritten, hn, ha.2 fun c hc => hall c (by simp [hc])]

/-- Merging common paths does not change what a typed tree writes. -/
theorem walkAll_compact {scope : Scope ρ} {cur : FlaggedTy} {l : List Node}
    (h : ∀ c ∈ l, Typed scope cur c) (v : Value ρ) (s : σ) :
    walkAll w cur v (compactList l).1 s = walkAll w cur v l s :=
  (walkAll_compactList w l cur h).1 cur v s

end Meaning

end PathTemplate.Tree
