import PathTemplate.Proofs.Template.Written
import PathTemplate.Proofs.Tree.Normal
import PathTemplate.Proofs.Tree.Strictness

namespace PathTemplate.Tree

variable {ρ : Type}

/-- The least number of children of nodes that write what they are made of. -/
def NodeKind.least : NodeKind → Nat
  | .concatenation => 1
  | .orFallback => 2
  | _ => 0

/-- A tree in which no concatenation is empty and all alternatives have others beside them. -/
def Node.Filled (n : Node) : Prop := ∀ m ∈ n.walk, m.kind.least ≤ m.children.length

theorem Node.filled_iff {n : Node} :
    n.Filled ↔ n.kind.least ≤ n.children.length ∧ (∀ c ∈ n.children, c.Filled) ∧
      ∀ c ∈ n.otherwise, c.Filled := by
  cases n
  exact Node.forall_walk_mk

namespace Node.Filled

variable {n below : Node}

theorem least_le (h : n.Filled) : n.kind.least ≤ n.children.length := (filled_iff.mp h).1

theorem children (h : n.Filled) : ∀ c ∈ n.children, c.Filled := (filled_iff.mp h).2.1

theorem otherwise (h : n.Filled) : ∀ c ∈ n.otherwise, c.Filled := (filled_iff.mp h).2.2

theorem leaf {kind : NodeKind} {ty : FlaggedTy} {span : Span} (h : kind.least = 0) :
    (Node.leaf kind ty span).Filled :=
  filled_iff.mpr ⟨Nat.le_of_eq h, by simp [Node.leaf], by simp [Node.leaf]⟩

theorem hang (h : n.Filled) (hb : below.Filled) :
    (n.withChildren (n.children ++ [below])).Filled := by
  have hleast := h.least_le
  refine filled_iff.mpr ⟨?_, ?_, h.otherwise⟩
  · show n.kind.least ≤ (n.children ++ [below]).length
    rw [List.length_append]
    omega
  · exact List.forall_mem_append.mpr ⟨h.children, by simpa using hb⟩

theorem graft {links : List Node} (hl : ∀ n ∈ links, n.Filled) (hb : below.Filled) :
    (graft links below).Filled := by
  induction links generalizing below with
  | nil => exact hb
  | cons n links ih =>
    obtain ⟨hn, hl⟩ := List.forall_mem_cons.mp hl
    exact ih hl (hn.hang hb)

theorem addDefault (h : n.Filled) (value : Fallback) (ty : FlaggedTy) (span : Span) :
    (addDefault value ty span n).Filled := by
  unfold Tree.addDefault
  split
  · refine filled_iff.mpr ⟨h.least_le, h.children, ?_⟩
    exact List.forall_mem_append.mpr ⟨h.otherwise, by simpa using leaf rfl⟩
  · exact h

end Node.Filled

def Path.Filled (p : Path) : Prop := ∀ n ∈ p.links, n.Filled

namespace Path.Filled

variable {s : Scope ρ} {p q : Path}

theorem start (base : FlaggedTy) : (Path.start base).Filled := by simp [Path.Filled, Path.start]

theorem link (h : p.Filled) {kind : NodeKind} (ty : FlaggedTy) (span : Span) {children : List Node}
    (hk : kind.least ≤ children.length) (hc : ∀ c ∈ children, c.Filled) :
    (p.link kind ty span children).Filled :=
  List.forall_mem_cons.mpr ⟨Node.filled_iff.mpr ⟨hk, hc, by simp⟩, h⟩

theorem bare (h : p.Filled) {kind : NodeKind} (ty : FlaggedTy) (span : Span)
    (hk : kind.least = 0) : (p.link kind ty span).Filled :=
  h.link ty span (Nat.le_of_eq hk) (by simp)

theorem guard (h : p.Filled) (span : Span) : (p.guard span).Filled := by
  have hoptional : (if p.cur.optional then
      p.link .optionalGuard { p.cur with optional := false } span else p).Filled := by
    split
    · exact h.bare _ _ rfl
    · exact h
  have hnullable : ∀ {p : Path}, p.Filled → (if p.cur.nullable then
      p.link .nullableGuard p.cur.present span else p).Filled := by
    intro p h
    split
    · exact h.bare _ _ rfl
    · exact h
  exact hnullable hoptional

theorem withDefault (h : p.Filled) (value : Fallback) (ty : FlaggedTy) (span : Span) :
    (p.withDefault value ty span).Filled := by
  rw [Path.Filled, withDefault_links]
  simpa using fun n hn => (h n hn).addDefault value ty span

theorem close (h : p.Filled) (span : Span) : (p.close span).Filled := by
  cases hl : p.links with
  | nil =>
    simp only [Path.close, hl]
    exact .leaf rfl
  | cons last before =>
    rw [Path.Filled, hl] at h
    obtain ⟨hlast, hbefore⟩ := List.forall_mem_cons.mp h
    rw [p.close_cons span hl]
    exact .graft hbefore hlast

theorem unresolved (h : p.Filled) {e : ResolveError} (hq : unresolved s p e = .ok q) :
    q.Filled := by
  unfold Tree.unresolved at hq
  split at hq <;> cases hq
  exact h.bare _ _ rfl

theorem navigate (h : p.Filled) {id : Ident} {lookup : Lookup}
    (hq : navigate s p id lookup = .ok q) : q.Filled := by
  rcases navigate_eq_ok hq with ⟨a, ty, -, rfl⟩ | ⟨m, e, -, hq⟩
  · exact (h.guard _).bare _ _ (by cases a <;> rfl)
  · exact (h.guard _).unresolved hq

theorem head (h : p.Filled) {hd : Head} (hq : head s p hd = .ok q) : q.Filled := by
  cases hd with
  | name id => exact h.navigate hq
  | key id => exact h.navigate hq
  | call id args =>
    simp only [Tree.head] at hq
    split at hq
    · simp only [bind_eq_ok, pure_eq_ok] at hq
      obtain ⟨values, -, rfl⟩ := hq
      exact h.bare _ _ rfl
    · split at hq
      · exact h.navigate hq
      · exact h.unresolved hq

theorem arithmetic (h : p.Filled) {a : Arithmetic} (hq : arithmetic p a = .ok q) : q.Filled := by
  obtain ⟨-, -, rfl⟩ := arithmetic_eq_ok hq
  exact (h.guard _).bare _ _ rfl

theorem conversion (h : p.Filled) {c : Conversion} (hq : conversion p c = .ok q) : q.Filled := by
  obtain ⟨-, rfl⟩ := conversion_eq_ok hq
  exact (h.guard _).bare _ _ rfl

theorem chainEnd (h : p.Filled) {a : Option Arithmetic} {c : Option Conversion}
    (hq : chainEnd p a c = .ok q) : q.Filled := by
  unfold Tree.chainEnd at hq
  split at hq
  · cases hq
    exact h
  · cases a with
    | none =>
      cases c with
      | none => cases hq; exact h
      | some c => exact h.conversion hq
    | some a =>
      obtain ⟨p', hp', hq⟩ := bind_eq_ok.mp hq
      cases c with
      | none => cases hq; exact h.arithmetic hp'
      | some c => exact (h.arithmetic hp').conversion hq

theorem finish (h : p.Filled) {span : Span} {default : Option Literal} {n : Node}
    (hn : finish p span default = .ok n) : n.Filled := by
  by_cases hnf : p.notFound = true
  · simp only [Tree.finish, hnf, if_true] at hn
    cases default with
    | none =>
      cases hn
      exact h.close span
    | some l =>
      cases hn
      exact ((h.bare _ _ rfl).withDefault _ _ _).close span
  · obtain ⟨value, q, hq, rfl⟩ := finish_cases hnf hn
    have hfilled : q.Filled := by
      rcases hq with ⟨-, rfl⟩ | rfl
      · exact h
      · exact h.bare _ _ rfl
    cases value with
    | none => exact hfilled.close span
    | some v => exact (hfilled.withDefault v _ span).close span

theorem finishAlternative (h : p.Filled) {span : Span} {n : Node} {ty : Option FlaggedTy}
    (hn : finishAlternative p span = .ok (n, ty)) : n.Filled := by
  unfold Tree.finishAlternative at hn
  split at hn
  · cases hn
    exact h.close span
  · split at hn
    · cases hn
      exact h.close span
    · split at hn <;> cases hn
      exact (h.bare _ _ rfl).close span

end Path.Filled

section Levels

-- Chains one level further down are known to be filled.
variable {s : Scope ρ} {base : FlaggedTy} {P : Chain → Prop}
  (hP : ∀ {c : Chain} {base : FlaggedTy} {p : Path}, P c → chain s base c = .ok p → p.Filled)

include hP

theorem chains_filled {cs : List Chain} (hcs : ∀ c ∈ cs, P c)
    {closed : List (Node × Option FlaggedTy)} (h : chains s base cs = .ok closed) :
    closed.length = cs.length ∧ ∀ c ∈ closed.map (·.1), c.Filled := by
  induction cs generalizing closed with
  | nil =>
    cases h
    simp
  | cons c rest ih =>
    obtain ⟨hc, hrest⟩ := List.forall_mem_cons.mp hcs
    simp only [chains, bind_eq_ok, pure_eq_ok, Prod.exists] at h
    obtain ⟨p, hp, n, ty, hn, more, hm, rfl⟩ := h
    obtain ⟨hlen, hmore⟩ := ih hrest hm
    have hfirst : n.Filled := (hP hc hp).finishAlternative hn
    refine ⟨by simp [hlen], List.forall_mem_cons.mpr ⟨?_, hmore⟩⟩
    exact Node.filled_iff.mpr ⟨by simp [Node.kind, NodeKind.least], by simpa using hfirst, by simp⟩

theorem expr_filled {e : Expr} (he : e.Fits P) {n : Node} (h : expr s base e = .ok n) :
    n.Filled := by
  obtain ⟨alternatives, default, span⟩ := e
  obtain ⟨hne, hall, -⟩ := he
  match alternatives, hne, hall with
  | [c], _, hall =>
    simp only [expr, bind_eq_ok] at h
    obtain ⟨p, hp, hn⟩ := h
    exact (hP (hall c (by simp [Expr.alternatives])) hp).finish hn
  | c :: d :: rest, _, hall =>
    obtain ⟨closed, otherwise, hc, ho, rfl⟩ := expr_of_alternatives (by simp) h
    have hchains : ∀ e ∈ c :: d :: rest, P e := hall
    obtain ⟨hlen, hfilled⟩ := chains_filled hP hchains hc
    refine Node.filled_iff.mpr ⟨?_, hfilled, fun c hmem => ?_⟩
    · simp [Node.kind, NodeKind.least, hlen]
    · obtain ⟨value, ty, span, rfl⟩ := ho c hmem
      exact .leaf rfl

theorem joined_filled {items : List JoinItem} (hi : ∀ i ∈ items, i.Fits P) {ns : List Node}
    (h : joined s base items = .ok ns) :
    ns.length = items.length ∧ ∀ n ∈ ns, n.Filled := by
  induction items generalizing ns with
  | nil =>
    cases h
    simp
  | cons i rest ih =>
    obtain ⟨hfirst, hrest⟩ := List.forall_mem_cons.mp hi
    cases i with
    | text text span =>
      simp only [joined, bind_eq_ok, pure_eq_ok] at h
      obtain ⟨more, hm, rfl⟩ := h
      obtain ⟨hlen, hmore⟩ := ih hrest hm
      exact ⟨by simp [hlen], List.forall_mem_cons.mpr ⟨.leaf rfl, hmore⟩⟩
    | expr e =>
      simp only [joined, bind_eq_ok, pure_eq_ok] at h
      obtain ⟨n, hn, more, hm, rfl⟩ := h
      obtain ⟨hlen, hmore⟩ := ih hrest hm
      exact ⟨by simp [hlen], List.forall_mem_cons.mpr ⟨expr_filled hP hfirst hn, hmore⟩⟩

theorem follow_filled {p q : Path} (hp : p.Filled) {step : Step} (hs : step.Fits P)
    (h : follow s p step = .ok q) : q.Filled := by
  cases step with
  | member id | call id | key id => exact hp.navigate h
  | join items span =>
    obtain ⟨hne, hi⟩ := hs
    simp only [follow, bind_eq_ok, pure_eq_ok] at h
    obtain ⟨children, hc, rfl⟩ := h
    obtain ⟨hlen, hfilled⟩ := joined_filled hP hi hc
    refine (hp.guard span).link _ _ ?_ hfilled
    rw [hlen]
    exact List.length_pos_iff.mpr hne

theorem followAll_filled {p q : Path} (hp : p.Filled) {steps : List Step}
    (hs : ∀ step ∈ steps, step.Fits P) (h : followAll s p steps = .ok q) : q.Filled := by
  induction steps generalizing p with
  | nil =>
    cases h
    exact hp
  | cons step rest ih =>
    obtain ⟨hstep, hrest⟩ := List.forall_mem_cons.mp hs
    unfold followAll at h
    split at h
    · cases h
      exact hp
    · obtain ⟨p', hp', h⟩ := bind_eq_ok.mp h
      exact ih (follow_filled hP hp hstep hp') hrest h

theorem chain_filled_over {c : Chain} (hc : c.FitsOver P) {p : Path}
    (h : chain s base c = .ok p) : p.Filled := by
  obtain ⟨hd, steps, a, v, span⟩ := c
  simp only [chain, bind_eq_ok] at h
  obtain ⟨p₁, h₁, p₂, h₂, h₃⟩ := h
  exact (followAll_filled hP ((Path.Filled.start base).head h₁) hc.steps h₂).chainEnd h₃

end Levels

theorem chain_filled {s : Scope ρ} {base : FlaggedTy} {levels : Nat} {c : Chain}
    {p : Path} (hc : c.Within levels) (h : chain s base c = .ok p) : p.Filled := by
  induction levels generalizing c base p with
  | zero => exact hc.elim
  | succ levels ih => exact chain_filled_over ih hc h

theorem segments_filled {s : Scope ρ} {segs : List Segment} (hs : Template.SegmentsFit segs)
    {ns : List Node} (h : segments s segs = .ok ns) : ∀ n ∈ ns, n.Filled := by
  induction segs generalizing ns with
  | nil =>
    cases h
    simp
  | cons seg rest ih =>
    cases seg with
    | text text span =>
      simp only [segments, bind_eq_ok, pure_eq_ok] at h
      obtain ⟨more, hm, rfl⟩ := h
      exact List.forall_mem_cons.mpr ⟨.leaf rfl, ih hs.2.2 hm⟩
    | expr e =>
      simp only [segments, bind_eq_ok, pure_eq_ok] at h
      obtain ⟨n, hn, more, hm, rfl⟩ := h
      exact List.forall_mem_cons.mpr ⟨expr_filled chain_filled hs.1 hn, ih hs.2 hm⟩

theorem ofTemplate_filled {s : Scope ρ} {sink : String} {t : Template} {n : Node}
    (ht : Template.SegmentsFit t.segments) (h : ofTemplate s sink t = .ok n) :
    ∀ c ∈ n.children, c.Filled := by
  unfold ofTemplate at h
  split at h
  · cases h
  · simp only [bind_eq_ok, pure_eq_ok] at h
    obtain ⟨children, hc, rfl⟩ := h
    exact segments_filled ht hc

theorem NodeKind.least_of_mergeable {kind : NodeKind} (h : kind.isMergeable) : kind.least = 0 := by
  cases kind with
  | concatenation | orFallback => simp [NodeKind.isMergeable] at h
  | _ => rfl

theorem Node.Filled.merge {keep other : Node} {separators : List Node} (hs : sameHead keep other)
    (hk : keep.Filled) (ho : other.Filled) (hsep : ∀ n ∈ separators, n.Filled) :
    (merge keep other separators).Filled := by
  obtain ⟨-, hm, -⟩ := sameHead_iff.mp hs
  refine filled_iff.mpr ⟨?_, ?_, ?_⟩
  · show keep.kind.least ≤ _
    rw [NodeKind.least_of_mergeable hm]
    exact Nat.zero_le _
  · simp only [Tree.merge, children_mk, List.forall_mem_append]
    exact ⟨⟨hk.children, hsep⟩, ho.children⟩
  · simp only [Tree.merge, otherwise_mk]
    split
    · simp only [List.forall_mem_append]
      exact ⟨⟨hk.otherwise, hsep⟩, ho.otherwise⟩
    · exact hk.otherwise

theorem absorb_filled {keep : Node} {rest : List Node} (h : ∀ n ∈ keep :: rest, n.Filled) :
    ∀ n ∈ (absorb keep rest).1 :: (absorb keep rest).2.2, n.Filled := by
  refine absorb_keeps (P := fun keep rest => ∀ n ∈ keep :: rest, n.Filled) ?_ keep rest h
  intro keep separators other after _ hs h
  simp only [List.forall_mem_cons, List.forall_mem_append] at h ⊢
  obtain ⟨hk, hsep, ho, hafter⟩ := h
  exact ⟨hk.merge hs ho hsep, hafter⟩

theorem length_compactList {l : List Node} (h : ∀ n ∈ l, n.kind.isMergeable = false) :
    (compactList l).1.length = l.length := by
  induction l using neighbours_induction with
  | nil => rw [compactList]
  | cons n rest _ _ ih =>
    obtain ⟨hn, hrest⟩ := List.forall_mem_cons.mp h
    rw [compactList_cons]
    rw [absorb_unmergeable hn] at ih ⊢
    simp [ih hrest]

theorem least_le_compactList {s : Scope ρ} {cur : FlaggedTy} {n : Node} (ht : Typed s cur n)
    (hn : n.kind.least ≤ n.children.length) :
    n.kind.least ≤ (compactList n.children).1.length := by
  obtain ⟨kind, ty, span, children, otherwise⟩ := n
  cases kind with
  | concatenation =>
    have hne : children ≠ [] := List.length_pos_iff.mp hn
    exact List.length_pos_iff.mpr (mt (compactList_thins children).nil_iff.mp hne)
  | orFallback =>
    obtain ⟨-, hc, -⟩ := ht.fits
    rw [Node.children_mk] at hn ⊢
    rw [length_compactList fun c hmem => by rw [hc c hmem]; rfl]
    exact hn
  | _ => exact Nat.zero_le _

theorem compactList_filled {s : Scope ρ} (l : List Node) :
    ∀ cur, (∀ n ∈ l, Typed s cur n) → (∀ n ∈ l, n.Filled) → ∀ n ∈ (compactList l).1, n.Filled := by
  induction l using neighbours_induction with
  | nil => simp [compactList]
  | cons n rest ihc iho iha =>
    intro cur ht hf
    obtain ⟨htn, htrest⟩ := List.forall_mem_cons.mp (absorb_typed ht)
    obtain ⟨hfn, hfrest⟩ := List.forall_mem_cons.mp (absorb_filled hf)
    rw [compactList_cons]
    refine List.forall_mem_cons.mpr ⟨?_, iha cur htrest hfrest⟩
    exact Node.filled_iff.mpr ⟨least_le_compactList htn hfn.least_le,
      ihc _ htn.of_mem_children hfn.children, iho _ htn.of_mem_otherwise hfn.otherwise⟩

end PathTemplate.Tree
