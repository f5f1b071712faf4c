import PathTemplate.Proofs.Routine.Depth
import PathTemplate.Proofs.Template.Spans
import PathTemplate.Proofs.Tree.Strictness

namespace PathTemplate

abbrev Span.Inside (src : String) (s : Span) : Prop := s.Within src (.whole src)

theorem Span.nowhere_inside (src : String) : Span.nowhere.Inside src :=
  ⟨Nat.le_refl _, Nat.le_refl _, Nat.zero_le _, Text.isBoundary_zero _, Text.isBoundary_zero _⟩

theorem Chain.Placed.inside {src : String} {outer : Span} {c : Chain} (h : c.Placed src outer) :
    c.span.Inside src := by
  cases h with
  | mk within => exact within.whole

theorem Arg.Placed.inside {src : String} {outer : Span} {a : Arg} (h : a.Placed src outer) :
    a.span.Inside src := by
  cases h with
  | literal within => exact within.whole
  | path placed => exact placed.inside

namespace Tree

variable {ρ : Type} {src : String}

/-- A tree whose nodes stand at places of a text. -/
def Node.Located (src : String) (n : Node) : Prop := ∀ m ∈ n.walk, m.span.Inside src

theorem Node.located_iff {n : Node} :
    n.Located src ↔ n.span.Inside src ∧ (∀ c ∈ n.children, c.Located src) ∧
      ∀ c ∈ n.otherwise, c.Located src := by
  cases n
  exact Node.forall_walk_mk

namespace Node.Located

variable {n below : Node} {span : Span}

theorem inside (h : n.Located src) : n.span.Inside src := (located_iff.mp h).1

theorem children (h : n.Located src) : ∀ c ∈ n.children, c.Located src := (located_iff.mp h).2.1

theorem otherwise (h : n.Located src) : ∀ c ∈ n.otherwise, c.Located src := (located_iff.mp h).2.2

theorem leaf (kind : NodeKind) (ty : FlaggedTy) (h : span.Inside src) :
    (Node.leaf kind ty span).Located src :=
  located_iff.mpr ⟨h, by simp [Node.leaf], by simp [Node.leaf]⟩

theorem graft {links : List Node} (hl : ∀ n ∈ links, n.Located src) (hb : below.Located src) :
    (graft links below).Located src := by
  induction links generalizing below with
  | nil => exact hb
  | cons n links ih =>
    obtain ⟨hn, hl⟩ := List.forall_mem_cons.mp hl
    have hhang : (n.withChildren (n.children ++ [below])).Located src :=
      located_iff.mpr ⟨hn.inside,
        List.forall_mem_append.mpr ⟨hn.children, by simpa using hb⟩, hn.otherwise⟩
    exact ih hl hhang

theorem addDefault (h : n.Located src) (value : Fallback) (ty : FlaggedTy)
    (hs : span.Inside src) : (addDefault value ty span n).Located src := by
  unfold Tree.addDefault
  split
  · refine located_iff.mpr ⟨h.inside, h.children, ?_⟩
    exact List.forall_mem_append.mpr ⟨h.otherwise, by simpa using leaf _ ty hs⟩
  · exact h

end Node.Located

/-- The result has the property, and an error is about a place in the text. -/
def Builds {α : Type} (src : String) (P : α → Prop) : Except BuildError α → Prop
  | .ok a => P a
  | .error e => e.span.Inside src

theorem Builds.bind {α β : Type} {P : α → Prop} {Q : β → Prop} {x : Except BuildError α}
    {k : α → Except BuildError β} (hx : Builds src P x) (hk : ∀ a, P a → Builds src Q (k a)) :
    Builds src Q (x >>= k) := by
  cases x with
  | ok a => exact hk a hx
  | error e => exact hx

def Path.Located (src : String) (p : Path) : Prop := ∀ n ∈ p.links, n.Located src

namespace Path.Located

variable {s : Scope ρ} {p : Path} {span : Span}

theorem start (base : FlaggedTy) : (Path.start base).Located src := by
  simp [Path.Located, Path.start]

theorem link (h : p.Located src) (kind : NodeKind) (ty : FlaggedTy) (hs : span.Inside src)
    {children : List Node} (hc : ∀ c ∈ children, c.Located src) :
    (p.link kind ty span children).Located src :=
  List.forall_mem_cons.mpr ⟨Node.located_iff.mpr ⟨hs, hc, by simp⟩, h⟩

theorem bare (h : p.Located src) (kind : NodeKind) (ty : FlaggedTy) (hs : span.Inside src) :
    (p.link kind ty span).Located src :=
  h.link kind ty hs (by simp)

theorem guard (h : p.Located src) (hs : span.Inside src) : (p.guard span).Located src := by
  have hoptional : (if p.cur.optional then
      p.link .optionalGuard { p.cur with optional := false } span else p).Located src := by
    split
    · exact h.bare _ _ hs
    · exact h
  have hnullable : ∀ {p : Path}, p.Located src → (if p.cur.nullable then
      p.link .nullableGuard p.cur.present span else p).Located src := by
    intro p h
    split
    · exact h.bare _ _ hs
    · exact h
  exact hnullable hoptional

theorem withDefault (h : p.Located src) (value : Fallback) (ty : FlaggedTy)
    (hs : span.Inside src) : (p.withDefault value ty span).Located src := by
  rw [Path.Located, withDefault_links]
  simpa using fun n hn => (h n hn).addDefault value ty hs

theorem close (h : p.Located src) (hs : span.Inside src) : (p.close span).Located src := by
  cases hl : p.links with
  | nil =>
    simp only [Path.close, hl]
    exact .leaf _ _ hs
  | cons last before =>
    rw [Path.Located, hl] at h
    obtain ⟨hlast, hbefore⟩ := List.forall_mem_cons.mp h
    rw [p.close_cons span hl]
    exact .graft hbefore hlast

theorem unresolved (h : p.Located src) {e : ResolveError} (he : e.span.Inside src) :
    Builds src (Path.Located src) (unresolved s p e) := by
  unfold Tree.unresolved
  split
  · exact he
  · exact h.bare _ _ he

theorem navigate (h : p.Located src) {id : Ident} (hid : id.span.Inside src) (lookup : Lookup) :
    Builds src (Path.Located src) (navigate s p id lookup) := by
  have hguard := h.guard hid
  unfold Tree.navigate
  dsimp only
  split
  · exact hguard.bare _ _ hid
  · exact hguard.unresolved hid
  · refine hguard.unresolved ?_
    split <;> exact hid
  · exact hguard.unresolved hid

end Path.Located

section Arguments

open Template

variable {s : Scope ρ} {outer : Span}

theorem plainSteps?_inside {ss : List Step} (h : ∀ x ∈ ss, Step.Placed src outer x)
    {steps : List (Ident × Lookup)} (hs : plainSteps? ss = some steps) :
    ∀ x ∈ steps, x.1.span.Inside src := by
  induction ss generalizing steps with
  | nil =>
    cases hs
    simp
  | cons step ss ih =>
    obtain ⟨hstep, hrest⟩ := List.forall_mem_cons.mp h
    cases hstep with
    | join => cases hs
    | member name | call name =>
      obtain ⟨steps', hsteps, rfl⟩ := Option.map_eq_some_iff.mp hs
      exact List.forall_mem_cons.mpr ⟨name.within.whole, ih hrest hsteps⟩
    | key within =>
      obtain ⟨steps', hsteps, rfl⟩ := Option.map_eq_some_iff.mp hs
      exact List.forall_mem_cons.mpr ⟨within.whole, ih hrest hsteps⟩

theorem plainPath?_inside {c : Chain} (h : c.Placed src outer) {steps : List (Ident × Lookup)}
    (hs : plainPath? c = some steps) : ∀ x ∈ steps, x.1.span.Inside src := by
  cases h with
  | mk within head hsteps arithmetic conversion =>
    unfold plainPath? at hs
    split at hs
    · cases hs
    · cases head with
      | call => cases hs
      | name name =>
        obtain ⟨steps', hplain, rfl⟩ := Option.map_eq_some_iff.mp hs
        exact List.forall_mem_cons.mpr ⟨name.within.whole, plainSteps?_inside hsteps hplain⟩
      | key within =>
        obtain ⟨steps', hplain, rfl⟩ := Option.map_eq_some_iff.mp hs
        exact List.forall_mem_cons.mpr ⟨within.whole, plainSteps?_inside hsteps hplain⟩

theorem accessPath_error {schema : Schema ρ} {ty : Ty} {steps : List (Ident × Lookup)}
    (hs : ∀ x ∈ steps, x.1.span.Inside src) {e : ResolveError}
    (h : accessPath schema ty steps = .error e) : e.span.Inside src := by
  induction steps generalizing ty with
  | nil => cases h
  | cons step rest ih =>
    obtain ⟨id, lookup⟩ := step
    obtain ⟨hid, hrest⟩ := List.forall_mem_cons.mp hs
    unfold accessPath at h
    split at h
    next access next _ =>
      cases hmore : accessPath schema next.ty rest with
      | ok r =>
        rw [hmore] at h
        cases h
      | error e' =>
        rw [hmore] at h
        cases h
        exact ih hrest hmore
    all_goals
      cases h
      exact hid

theorem argument_builds {a : Arg} (h : a.Placed src outer) :
    Builds src (fun _ => True) (argument s a) := by
  cases h with
  | literal within =>
    simp only [argument]
    split
    · exact within.whole
    · trivial
  | path placed =>
    simp only [argument]
    split
    · exact placed.inside
    next steps hsteps =>
      split
      · trivial
      next e he =>
        split
        · exact accessPath_error (plainPath?_inside placed hsteps) he
        · trivial

theorem arguments_build (passthrough : Bool) {args : List Arg}
    (h : ∀ a ∈ args, Arg.Placed src outer a) :
    Builds src (fun _ => True) (arguments s passthrough args) := by
  induction args with
  | nil => trivial
  | cons a rest ih =>
    obtain ⟨ha, hrest⟩ := List.forall_mem_cons.mp h
    refine (argument_builds ha).bind fun r _ => ?_
    dsimp only
    split
    · exact ha.inside
    · exact (ih hrest).bind fun values _ => trivial

end Arguments

section Chains

open Template

variable {s : Scope ρ} {outer : Span} {p : Path}

theorem head_builds (hp : p.Located src) {h : Head} (hh : h.Placed src outer) :
    Builds src (Path.Located src) (head s p h) := by
  cases hh with
  | name name => exact hp.navigate name.within.whole _
  | key within => exact hp.navigate within.whole _
  | call _ _ name args =>
    simp only [head]
    split
    · exact (arguments_build _ args).bind fun values _ => hp.bare _ _ name.within.whole
    · split
      · exact hp.navigate name.within.whole _
      · exact hp.unresolved name.within.whole

theorem arithmetic_builds (hp : p.Located src) {a : Arithmetic} (ha : a.span.Inside src) :
    Builds src (Path.Located src) (arithmetic p a) := by
  have hdone := (hp.guard ha).bare (.math a.op a.operand)
    (.plain (promoted (p.guard a.span).cur.ty a.operand)) ha
  unfold arithmetic
  dsimp only
  split
  · exact ha
  · split
    · exact hdone
    · split
      · exact ha
      · split
        · exact ha
        · exact hdone

theorem conversion_builds (hp : p.Located src) {c : Conversion} (hc : c.span.Inside src) :
    Builds src (Path.Located src) (conversion p c) := by
  unfold conversion
  dsimp only
  split
  · exact (hp.guard hc).bare _ _ hc
  · exact hc

theorem chainEnd_builds (hp : p.Located src) {a : Option Arithmetic} {c : Option Conversion}
    (ha : ∀ x ∈ a, x.span.Inside src) (hc : ∀ x ∈ c, x.span.Inside src) :
    Builds src (Path.Located src) (chainEnd p a c) := by
  unfold chainEnd
  split
  · exact hp
  · cases a with
    | none =>
      cases c with
      | none => exact hp
      | some c => exact conversion_builds hp (hc c rfl)
    | some a =>
      cases c with
      | none => exact (arithmetic_builds hp (ha a rfl)).bind fun q hq => hq
      | some c =>
        exact (arithmetic_builds hp (ha a rfl)).bind fun q hq => conversion_builds hq (hc c rfl)

theorem defaultFor_builds {l : Literal} (hl : l.span.Inside src) (target : Ty) :
    Builds src (fun _ => True) (defaultFor l target) := by
  unfold defaultFor
  split
  · trivial
  · split
    · trivial
    · exact hl

theorem finish_builds (hp : p.Located src) {span : Span} (hs : span.Inside src)
    {default : Option Literal} (hd : ∀ l ∈ default, l.span.Inside src) :
    Builds src (Node.Located src) (finish p span default) := by
  unfold finish
  split
  · cases default with
    | none => exact hp.close hs
    | some l => exact ((hp.bare _ _ (hd l rfl)).withDefault _ _ hs).close hs
  · have hvalue : Builds src (fun _ => True) (default.mapM fun l => defaultFor l p.cur.ty) := by
      cases default with
      | none => trivial
      | some l => exact (defaultFor_builds (hd l rfl) _).bind fun _ _ => trivial
    refine hvalue.bind fun value _ => ?_
    -- Both the path as it is and the printed one are closed in the same way.
    cases value with
    | none =>
      dsimp only
      split
      · exact hp.close hs
      · split
        · exact (hp.bare _ _ hs).close hs
        · exact hs
    | some v =>
      dsimp only
      split
      · exact (hp.withDefault v _ hs).close hs
      · split
        · exact ((hp.bare _ _ hs).withDefault v _ hs).close hs
        · exact hs

theorem finishAlternative_builds (hp : p.Located src) {span : Span} (hs : span.Inside src) :
    Builds src (fun r => r.1.Located src) (finishAlternative p span) := by
  unfold finishAlternative
  split
  · exact hp.close hs
  · split
    · exact hp.close hs
    · split
      · exact (hp.bare _ _ hs).close hs
      · exact hs

theorem sharedDefault_builds {l : Literal} (hl : l.span.Inside src) (tys : List FlaggedTy) :
    Builds src (fun _ => True) (sharedDefault l tys) := by
  have hrest : ∀ tys : List FlaggedTy,
      Builds src (fun _ => True) (tys.forM fun t => (defaultFor l t.ty).map fun _ => ()) := by
    intro tys
    induction tys with
    | nil => trivial
    | cons t tys ih =>
      have ht : Builds src (fun _ => True) ((defaultFor l t.ty).map fun _ => ()) := by
        have h := defaultFor_builds hl t.ty
        cases hx : defaultFor l t.ty with
        | ok v => trivial
        | error e =>
          rw [hx] at h
          exact h
      exact ht.bind fun _ _ => ih
  cases tys with
  | nil => trivial
  | cons t tys =>
    exact (defaultFor_builds hl t.ty).bind fun _ _ => (hrest tys).bind fun _ _ => trivial

theorem alternatives_build {base : FlaggedTy} {cs : List Chain} {default : Option Literal}
    {span : Span} (hcs : ∀ c, cs = [c] → False)
    (h : Builds src (fun closed => ∀ n ∈ closed.map (·.1), n.Located src) (chains s base cs))
    (hs : span.Inside src) (hd : ∀ l ∈ default, l.span.Inside src) :
    Builds src (Node.Located src) (expr s base (.mk cs default span)) := by
  rw [expr.eq_2 s base cs default span hcs]
  refine h.bind fun closed hclosed => ?_
  cases default with
  | none => exact Node.located_iff.mpr ⟨hs, hclosed, by simp⟩
  | some l =>
    refine (sharedDefault_builds (hd l rfl) _).bind fun value _ => ?_
    exact Node.located_iff.mpr ⟨hs, hclosed, by simpa using .leaf _ _ (hd l rfl)⟩

mutual

theorem expr_builds (base : FlaggedTy) {outer : Span} : (e : Expr) → e.Placed src outer →
    Builds src (Node.Located src) (expr s base e)
  | .mk [c] default span, h => by
    cases h with
    | mk within alternatives hdefault =>
      have hc := alternatives c (by simp)
      simp only [expr]
      exact (chain_builds base c hc).bind fun p hp =>
        finish_builds hp hc.inside fun l hl => (hdefault l hl).whole
  | .mk [] default span, h => by
    cases h with
    | mk within _ hdefault =>
      exact alternatives_build (by simp) (by simp [chains, Builds]) within.whole
        fun l hl => (hdefault l hl).whole
  | .mk (c :: d :: rest) default span, h => by
    cases h with
    | mk within alternatives hdefault =>
      exact alternatives_build (by simp) (chains_build base (c :: d :: rest) alternatives)
        within.whole fun l hl => (hdefault l hl).whole

theorem chains_build (base : FlaggedTy) {outer : Span} : (cs : List Chain) →
    (∀ c ∈ cs, Chain.Placed src outer c) →
    Builds src (fun closed => ∀ n ∈ closed.map (·.1), n.Located src) (chains s base cs)
  | [], _ => by simp [chains, Builds]
  | c :: rest, h => by
    obtain ⟨hc, hrest⟩ := List.forall_mem_cons.mp h
    simp only [chains]
    refine (chain_builds base c hc).bind fun p hp => ?_
    refine (finishAlternative_builds hp hc.inside).bind fun r hr => ?_
    refine (chains_build base rest hrest).bind fun more hmore => ?_
    exact List.forall_mem_cons.mpr ⟨Node.located_iff.mpr ⟨hc.inside, by simpa using hr, by simp⟩,
      hmore⟩

theorem chain_builds (base : FlaggedTy) {outer : Span} : (c : Chain) → c.Placed src outer →
    Builds src (Path.Located src) (chain s base c)
  | .mk h steps a v span, hc => by
    cases hc with
    | mk within head hsteps harithmetic hconversion =>
      simp only [chain]
      refine (head_builds (.start base) head).bind fun p hp => ?_
      refine (followAll_builds hp steps hsteps).bind fun q hq => ?_
      exact chainEnd_builds hq (fun x hx => (harithmetic x hx).whole)
        fun x hx => (hconversion x hx).whole

theorem followAll_builds {p : Path} (hp : p.Located src) {outer : Span} : (steps : List Step) →
    (∀ x ∈ steps, Step.Placed src outer x) → Builds src (Path.Located src) (followAll s p steps)
  | [], _ => by simpa [followAll, Builds] using hp
  | step :: rest, h => by
    obtain ⟨hstep, hrest⟩ := List.forall_mem_cons.mp h
    simp only [followAll]
    split
    · exact hp
    · exact (follow_builds hp step hstep).bind fun q hq => followAll_builds hq rest hrest

theorem follow_builds {p : Path} (hp : p.Located src) {outer : Span} : (step : Step) →
    step.Placed src outer → Builds src (Path.Located src) (follow s p step)
  | .member id, .member name => hp.navigate name.within.whole _
  | .call id, .call name => hp.navigate name.within.whole _
  | .key id, .key within => hp.navigate within.whole _
  | .join items span, .join within hitems => by
    simp only [follow]
    refine (joined_build _ items hitems).bind fun children hchildren => ?_
    exact (hp.guard within.whole).link _ _ within.whole hchildren

theorem joined_build (base : FlaggedTy) {outer : Span} : (items : List JoinItem) →
    (∀ i ∈ items, JoinItem.Placed src outer i) →
    Builds src (fun ns => ∀ n ∈ ns, n.Located src) (joined s base items)
  | [], _ => by simp [joined, Builds]
  | .text text span :: rest, h => by
    obtain ⟨hfirst, hrest⟩ := List.forall_mem_cons.mp h
    cases hfirst with
    | text within =>
      simp only [joined]
      exact (joined_build base rest hrest).bind fun more hmore =>
        List.forall_mem_cons.mpr ⟨.leaf _ _ within.whole, hmore⟩
  | .expr e :: rest, h => by
    obtain ⟨hfirst, hrest⟩ := List.forall_mem_cons.mp h
    cases hfirst with
    | expr placed =>
      simp only [joined]
      exact (expr_builds base e placed).bind fun n hn => (joined_build base rest hrest).bind
        fun more hmore => List.forall_mem_cons.mpr ⟨hn, hmore⟩

end

theorem segments_build {start : Nat} {segs : List Segment} {pieces : List String}
    (h : Covers src start segs pieces) :
    Builds src (fun ns => ∀ n ∈ ns, n.Located src) (segments s segs) := by
  induction h with
  | nil => simp [segments, Builds]
  | text within _ _ ih =>
    simp only [segments]
    exact ih.bind fun more hmore => List.forall_mem_cons.mpr ⟨.leaf _ _ within, hmore⟩
  | expr _ _ placed _ ih =>
    simp only [segments]
    exact (expr_builds _ _ placed).bind fun n hn => ih.bind fun more hmore =>
      List.forall_mem_cons.mpr ⟨hn, hmore⟩

theorem ofTemplate_builds (s : Scope ρ) (sink : String) {t : Template} {start : Nat}
    {pieces : List String} (h : Covers src start t.segments pieces) :
    Builds src (Node.Located src) (ofTemplate s sink t) := by
  unfold ofTemplate
  split
  · exact Span.nowhere_inside src
  · exact (segments_build h).bind fun children hchildren =>
      Node.located_iff.mpr ⟨Span.nowhere_inside src, hchildren, by simp [Node.root]⟩

end Chains

theorem Node.Located.merge {keep other : Node} {separators : List Node} (hk : keep.Located src)
    (ho : other.Located src) (hsep : ∀ n ∈ separators, n.Located src) :
    (merge keep other separators).Located src := by
  refine located_iff.mpr ⟨hk.inside, ?_, ?_⟩
  · simp only [Tree.merge, children_mk, List.forall_mem_append]
    exact ⟨⟨hk.children, hsep⟩, ho.children⟩
  · simp only [Tree.merge, otherwise_mk]
    split
    · simp only [List.forall_mem_append]
      exact ⟨⟨hk.otherwise, hsep⟩, ho.otherwise⟩
    · exact hk.otherwise

theorem absorb_located {keep : Node} {rest : List Node}
    (h : ∀ n ∈ keep :: rest, n.Located src) :
    ∀ n ∈ (absorb keep rest).1 :: (absorb keep rest).2.2, n.Located src := by
  refine absorb_keeps (P := fun keep rest => ∀ n ∈ keep :: rest, n.Located src) ?_ keep rest h
  intro keep separators other after _ _ h
  simp only [List.forall_mem_cons, List.forall_mem_append] at h ⊢
  obtain ⟨hk, hsep, ho, hafter⟩ := h
  exact ⟨hk.merge ho hsep, hafter⟩

theorem compactList_located (l : List Node) (h : ∀ n ∈ l, n.Located src) :
    ∀ n ∈ (compactList l).1, n.Located src := by
  induction l using neighbours_induction with
  | nil => simp [compactList]
  | cons n rest ihc iho iha =>
    obtain ⟨hn, hrest⟩ := List.forall_mem_cons.mp (absorb_located h)
    rw [compactList_cons]
    exact List.forall_mem_cons.mpr ⟨Node.located_iff.mpr ⟨hn.inside, ihc hn.children,
      iho hn.otherwise⟩, iha hrest⟩

theorem Node.Located.compact {n : Node} (h : n.Located src) : (compact n).1.Located src :=
  located_iff.mpr ⟨h.inside, compactList_located _ h.children, compactList_located _ h.otherwise⟩

end Tree

namespace Routine

open PathTemplate.Tree

variable {src : String}

mutual

theorem tooDeep?_inside (max depth : Nat) : (n : Node) → n.Located src →
    ∀ s ∈ tooDeep? max depth n, s.Inside src
  | .mk kind ty span children otherwise, h => by
    have hc := fun depth => tooDeepAll?_inside max depth children h.children
    have ho := fun depth => tooDeepAll?_inside max depth otherwise h.otherwise
    have he := fun depth => tooDeepEach?_inside max depth children h.children
    intro s hs
    unfold tooDeep? at hs
    split at hs
    · cases hs
      exact h.inside
    · cases kind with
      | literal | print | default => cases hs
      | root | notFound => exact hc _ s hs
      | optionalGuard | nullableGuard =>
        rcases Option.or_eq_some_iff.mp hs with hs | ⟨-, hs⟩
        · exact hc _ s hs
        · exact ho _ s hs
      | orFallback =>
        rcases Option.or_eq_some_iff.mp hs with hs | ⟨-, hs⟩
        · exact he _ s hs
        · exact ho _ s hs
      | _ => exact hc _ s hs

theorem tooDeepAll?_inside (max depth : Nat) : (ns : List Node) → (∀ n ∈ ns, n.Located src) →
    ∀ s ∈ tooDeepAll? max depth ns, s.Inside src
  | [], _ => by simp [tooDeepAll?]
  | n :: ns, h => by
    obtain ⟨hn, hns⟩ := List.forall_mem_cons.mp h
    intro s hs
    rcases Option.or_eq_some_iff.mp hs with hs | ⟨-, hs⟩
    · exact tooDeep?_inside max depth n hn s hs
    · exact tooDeepAll?_inside max depth ns hns s hs

theorem tooDeepEach?_inside (max depth : Nat) : (ns : List Node) → (∀ n ∈ ns, n.Located src) →
    ∀ s ∈ tooDeepEach? max depth ns, s.Inside src
  | [], _ => by simp [tooDeepEach?]
  | .mk kind ty span children otherwise :: ns, h => by
    obtain ⟨hn, hns⟩ := List.forall_mem_cons.mp h
    have hrest := tooDeepEach?_inside max depth ns hns
    intro s hs
    by_cases hk : kind = .concatenation
    · subst hk
      rw [tooDeepEach?] at hs
      rcases Option.or_eq_some_iff.mp hs with hs | ⟨-, hs⟩
      · exact tooDeepAll?_inside max (depth + 1) children hn.children s hs
      · exact hrest s hs
    · rw [tooDeepEach?_other (by exact hk)] at hs
      rcases Option.or_eq_some_iff.mp hs with hs | ⟨-, hs⟩
      · exact tooDeep?_inside max depth _ hn s hs
      · exact hrest s hs

end

theorem ofTree_error_inside {max : Nat} {name : String} {n : Node} (h : n.Located src)
    {e : DepthError} (he : ofTree max name n = .error e) : e.span.Inside src := by
  obtain ⟨s, hs, rfl⟩ :=
    Option.map_eq_some_iff.mp (((ofTree_stopsAt max name n).error_iff e).mp he)
  exact tooDeepAll?_inside max 0 n.children h.children s hs

end Routine

end PathTemplate
