import PathTemplate.Proofs.Outcome
import PathTemplate.Proofs.Routine.Depth
import PathTemplate.Proofs.Template.Printer
import PathTemplate.Tree.OfTemplate

/-!
Places do not matter. Templates that differ only in the places of their parts are refused together,
and otherwise become trees that differ only in the places of their nodes; such trees write the same
and nest as deep.
-/

namespace PathTemplate

section Mirrors

variable {ε α β γ δ : Type}

/-- The second computation fails with the first, and gives what becomes of its result under `f`. -/
inductive Mirrors (f : α → β) : Except ε α → Except ε β → Prop where
  | ok (a : α) : Mirrors f (.ok a) (.ok (f a))
  | error (e e' : ε) : Mirrors f (.error e) (.error e')

namespace Mirrors

variable {f : α → β} {g : γ → δ} {x : Except ε α} {y : Except ε β}

theorem ok_of_eq {a : α} {b : β} (h : b = f a) :
    Mirrors f (.ok a : Except ε α) (.ok b : Except ε β) := by
  subst h
  exact .ok a

theorem bind {k : α → Except ε γ} {k' : β → Except ε δ} (h : Mirrors f x y)
    (hk : ∀ a, Mirrors g (k a) (k' (f a))) : Mirrors g (x >>= k) (y >>= k') := by
  cases h with
  | ok a => exact hk a
  | error e e' => exact .error e e'

theorem ite {x' : Except ε α} {y' : Except ε β} {c : Prop} [Decidable c] (h : Mirrors f x y)
    (h' : Mirrors f x' y') : Mirrors f (if c then x else x') (if c then y else y') := by
  split
  · exact h
  · exact h'

theorem eq_ok (h : Mirrors f x y) {a : α} (hx : x = .ok a) : y = .ok (f a) := by
  subst hx
  cases h
  rfl

theorem exists_ok (h : Mirrors f x y) {b : β} (hy : y = .ok b) : ∃ a, x = .ok a ∧ f a = b := by
  subst hy
  cases h with
  | ok a => exact ⟨a, rfl, rfl⟩

end Mirrors

end Mirrors

namespace Tree

mutual

def Node.unplaced : Node → Node
  | .mk kind ty _ children otherwise =>
    .mk kind ty .nowhere (Node.unplacedAll children) (Node.unplacedAll otherwise)

def Node.unplacedAll : List Node → List Node
  | [] => []
  | n :: ns => n.unplaced :: Node.unplacedAll ns

end

def Path.unplaced (p : Path) : Path := { p with links := Node.unplacedAll p.links }

theorem Node.unplacedAll_append (a b : List Node) :
    Node.unplacedAll (a ++ b) = Node.unplacedAll a ++ Node.unplacedAll b := by
  induction a with
  | nil => rfl
  | cons n ns ih => simp only [List.cons_append, Node.unplacedAll, ih]

theorem Node.unplaced_kind (n : Node) : n.unplaced.kind = n.kind := by
  cases n
  rfl

theorem Node.unplaced_grow (n below : Node) :
    (n.withChildren (n.children ++ [below])).unplaced =
      n.unplaced.withChildren (n.unplaced.children ++ [below.unplaced]) := by
  cases n
  simp only [withChildren, unplaced, kind, ty, span, children, otherwise, unplacedAll_append,
    unplacedAll]

section Paths

variable (p : Path) (kind : NodeKind) (ty : FlaggedTy) (span : Span)

theorem Path.unplaced_guard : (p.guard span).unplaced = p.unplaced.guard .nowhere := by
  obtain ⟨links, ⟨ty, optional, nullable⟩, done, notFound⟩ := p
  cases optional <;> cases nullable <;> rfl

theorem Path.unplaced_withDefault (value : Fallback) :
    (p.withDefault value ty span).unplaced = p.unplaced.withDefault value ty .nowhere := by
  have hlinks : ∀ links : List Node,
      Node.unplacedAll (links.map fun n =>
        if n.kind.isGuard then n.withOtherwise (n.otherwise ++ [.leaf (.default value) ty span])
        else n) =
      (Node.unplacedAll links).map fun n =>
        if n.kind.isGuard then n.withOtherwise (n.otherwise ++ [.leaf (.default value) ty .nowhere])
        else n := by
    intro links
    induction links with
    | nil => rfl
    | cons n ns ih =>
      simp only [List.map_cons, Node.unplacedAll, ih, Node.unplaced_kind]
      congr 1
      split
      · cases n
        simp only [Node.withOtherwise, Node.unplaced, Node.kind, Node.ty, Node.span, Node.children,
          Node.otherwise, Node.unplacedAll_append, Node.unplacedAll, Node.leaf]
      · rfl
  simp only [Path.withDefault, Path.unplaced, hlinks]

theorem Path.unplaced_close : (p.close span).unplaced = p.unplaced.close .nowhere := by
  obtain ⟨links, cur, done, notFound⟩ := p
  cases links with
  | nil => rfl
  | cons last before =>
    simp only [Path.close, Path.unplaced, Node.unplacedAll]
    induction before generalizing last with
    | nil => rfl
    | cons n before ih =>
      simp only [List.foldl_cons, Node.unplacedAll, ih, Node.unplaced_grow]

end Paths

variable {ρ : Type} (s : Scope ρ)

theorem unresolved_mirrors (p : Path) {e e' : ResolveError} (hname : e'.name = e.name)
    (hspan : e'.span = .nowhere) :
    Mirrors Path.unplaced (unresolved s p e) (unresolved s p.unplaced e') := by
  unfold unresolved
  cases s.policy with
  | strict => exact .error _ _
  | lenient =>
    have hmiss : p.unplaced.miss e' = (p.miss e).unplaced := by
      simp only [Path.miss, hname, hspan]
      rfl
    rw [hmiss]
    exact .ok _

theorem navigate_mirrors (p : Path) (id : Ident) (lookup : Lookup) :
    Mirrors Path.unplaced (navigate s p id lookup) (navigate s p.unplaced id.unplaced lookup) := by
  have hguard : p.unplaced.guard id.unplaced.span = (p.guard id.span).unplaced :=
    (p.unplaced_guard id.span).symm
  simp only [navigate, hguard]
  cases hs : stepFrom s.schema (p.guard id.span).cur.ty id.name lookup with
  | ok r =>
    have hs' : stepFrom s.schema (p.guard id.span).unplaced.cur.ty id.unplaced.name lookup =
      .ok r := hs
    simp only [hs']
    exact .ok _
  | error m =>
    have hs' : stepFrom s.schema (p.guard id.span).unplaced.cur.ty id.unplaced.name lookup =
      .error m := hs
    simp only [hs']
    cases m with
    | noMember owner => cases lookup <;> exact unresolved_mirrors s _ rfl rfl
    | _ => exact unresolved_mirrors s _ rfl rfl

def unplacedSteps (steps : List (Ident × Lookup)) : List (Ident × Lookup) :=
  steps.map fun step => (step.1.unplaced, step.2)

theorem plainSteps?_unplaced (steps : List Step) :
    plainSteps? (Step.unplacedAll steps) = (plainSteps? steps).map unplacedSteps := by
  induction steps with
  | nil => rfl
  | cons step rest ih =>
    cases step with
    | join => rfl
    | _ =>
      simp only [Step.unplacedAll, Step.unplaced, plainSteps?, ih]
      cases plainSteps? rest <;> rfl

theorem plainPath?_unplaced (c : Chain) :
    plainPath? c.unplaced = (plainPath? c).map unplacedSteps := by
  obtain ⟨head, steps, a, v, span⟩ := c
  cases a with
  | some a => rfl
  | none =>
    cases v with
    | some v => rfl
    | none =>
      have hsteps := plainSteps?_unplaced steps
      cases head with
      | call => rfl
      | _ =>
        simp only [plainPath?, Chain.unplaced, Chain.head, Chain.steps, Chain.arithmetic,
          Chain.conversion, Head.unplaced, Option.map_none, hsteps]
        cases plainSteps? steps <;> rfl

theorem accessPath_mirrors (ty : Ty) (steps : List (Ident × Lookup)) :
    Mirrors id (accessPath s.schema ty steps)
      (accessPath s.schema ty (unplacedSteps steps)) := by
  induction steps generalizing ty with
  | nil => exact .ok _
  | cons step rest ih =>
    obtain ⟨id, lookup⟩ := step
    simp only [unplacedSteps, List.map_cons, accessPath, Ident.unplaced]
    cases stepFrom s.schema ty id.name lookup with
    | ok r => exact (ih r.2.ty).bind fun _ => .ok _
    | error m => cases m <;> exact .error _ _

theorem argument_mirrors (a : Arg) : Mirrors id (argument s a) (argument s a.unplaced) := by
  cases a with
  | literal l =>
    obtain ⟨kind, span⟩ := l
    cases kind with
    | param => exact .error _ _
    | _ => exact .ok _
  | path c =>
    simp only [Arg.unplaced, argument, plainPath?_unplaced]
    cases plainPath? c with
    | none => exact .error _ _
    | some steps =>
      have hpath := accessPath_mirrors s (.record s.input) steps
      simp only [Option.map_some]
      generalize accessPath s.schema (.record s.input) steps = x at hpath ⊢
      generalize accessPath s.schema (.record s.input) (unplacedSteps steps) = y at hpath ⊢
      cases hpath with
      | ok r => exact .ok _
      | error e e' =>
        cases s.policy with
        | strict => exact .error _ _
        | lenient => exact .ok _

theorem arguments_mirrors (passthrough : Bool) (args : List Arg) :
    Mirrors id (arguments s passthrough args) (arguments s passthrough (Arg.unplacedAll args)) := by
  induction args with
  | nil => exact .ok _
  | cons a rest ih =>
    simp only [Arg.unplacedAll, arguments]
    refine (argument_mirrors s a).bind fun r => ?_
    exact .ite (.error _ _) (ih.bind fun _ => .ok _)

theorem head_mirrors (p : Path) (h : Head) :
    Mirrors Path.unplaced (head s p h) (head s p.unplaced h.unplaced) := by
  cases h with
  | name id => exact navigate_mirrors s p id .member
  | key id => exact navigate_mirrors s p id .key
  | call id args =>
    have hlen : (Arg.unplacedAll args).length = args.length := by
      rw [Arg.unplacedAll_eq, List.length_map]
    have hempty : (Arg.unplacedAll args).isEmpty = args.isEmpty := by
      cases args <;> rfl
    have hname : id.unplaced.name = id.name := rfl
    have hcur : p.unplaced.cur = p.cur := rfl
    simp only [Head.unplaced, head, hlen, hempty, hname, hcur]
    cases s.functions.lookup? id.name args.length with
    | some f => exact (arguments_mirrors s _ args).bind fun _ => .ok _
    | none => exact .ite (navigate_mirrors s p id .method) (unresolved_mirrors s p rfl rfl)

theorem arithmetic_mirrors (p : Path) (a : Arithmetic) :
    Mirrors Path.unplaced (arithmetic p a) (arithmetic p.unplaced a.unplaced) := by
  have hguard : p.unplaced.guard a.unplaced.span = (p.guard a.span).unplaced :=
    (p.unplaced_guard a.span).symm
  have hcur : (p.guard a.span).unplaced.cur = (p.guard a.span).cur := rfl
  have hop : a.unplaced.op = a.op := rfl
  have hoperand : a.unplaced.operand = a.operand := rfl
  simp only [arithmetic, hguard, hcur, hop, hoperand]
  refine .ite (.error _ _) ?_
  cases a.operand with
  | float => exact .ok _
  | int n => exact .ite (.error _ _) (.ite (.error _ _) (.ok _))

theorem conversion_mirrors (p : Path) (c : Conversion) :
    Mirrors Path.unplaced (conversion p c) (conversion p.unplaced c.unplaced) := by
  have hguard : p.unplaced.guard c.unplaced.span = (p.guard c.span).unplaced :=
    (p.unplaced_guard c.span).symm
  have hallowed : castAllowed (p.guard c.span).unplaced.cur.ty c.unplaced.target =
    castAllowed (p.guard c.span).cur.ty c.target := rfl
  simp only [conversion, hguard, hallowed]
  exact .ite (.ok _) (.error _ _)

theorem chainEnd_mirrors (p : Path) (a : Option Arithmetic) (c : Option Conversion) :
    Mirrors Path.unplaced (chainEnd p a c)
      (chainEnd p.unplaced (a.map Arithmetic.unplaced) (c.map Conversion.unplaced)) := by
  have hdone : p.unplaced.done = p.done := rfl
  simp only [chainEnd, hdone]
  refine .ite (.ok _) ?_
  cases a with
  | none =>
    cases c with
    | none => exact .ok _
    | some c => exact conversion_mirrors p c
  | some a =>
    cases c with
    | none => exact (arithmetic_mirrors p a).bind fun _ => .ok _
    | some c => exact (arithmetic_mirrors p a).bind fun q => conversion_mirrors q c

theorem defaultFor_mirrors (l : Literal) (target : Ty) :
    Mirrors id (defaultFor l target) (defaultFor l.unplaced target) := by
  obtain ⟨kind, span⟩ := l
  cases kind with
  | param => exact .ok _
  | _ =>
    simp only [defaultFor, Literal.unplaced]
    split
    · exact .ok _
    · exact .error _ _

theorem close_mirrors (p : Path) (span : Span) :
    Mirrors Node.unplaced (.ok (p.close span) : Except BuildError Node)
      (.ok (p.unplaced.close .nowhere)) :=
  .ok_of_eq (p.unplaced_close span).symm

theorem closeWithDefault_mirrors (p : Path) (value : Fallback) (ty : FlaggedTy) (span : Span) :
    Mirrors Node.unplaced (.ok ((p.withDefault value ty span).close span) : Except BuildError Node)
      (.ok ((p.unplaced.withDefault value ty .nowhere).close .nowhere)) := by
  rw [← p.unplaced_withDefault ty span value]
  exact close_mirrors _ span

theorem finish_mirrors (p : Path) (span : Span) (default : Option Literal) :
    Mirrors Node.unplaced (finish p span default)
      (finish p.unplaced .nowhere (default.map Literal.unplaced)) := by
  have hfound : p.unplaced.notFound = p.notFound := rfl
  have hdone : p.unplaced.done = p.done := rfl
  have hcur : p.unplaced.cur = p.cur := rfl
  have hvalue : Mirrors id (default.mapM fun l => defaultFor l p.cur.ty)
      ((default.map Literal.unplaced).mapM fun l => defaultFor l p.cur.ty) := by
    cases default with
    | none => exact .ok _
    | some l => exact (defaultFor_mirrors l p.cur.ty).bind fun _ => .ok _
  simp only [finish, hfound, hdone, hcur]
  refine .ite ?_ (hvalue.bind fun value => ?_)
  · cases default with
    | none => exact close_mirrors p span
    | some l => exact closeWithDefault_mirrors (p.link (.default (naturalDefault l)) _ _) _ _ span
  -- Both the path as it is and the printed one are closed in the same way.
  · cases value with
    | none => exact .ite (close_mirrors p span) (.ite (close_mirrors _ span) (.error _ _))
    | some v =>
      exact .ite (closeWithDefault_mirrors p v _ span)
        (.ite (closeWithDefault_mirrors _ v _ span) (.error _ _))

theorem finishAlternative_mirrors (p : Path) (span : Span) :
    Mirrors (Prod.map Node.unplaced id) (finishAlternative p span)
      (finishAlternative p.unplaced .nowhere) := by
  have hclose : ∀ (q : Path) (ty : Option FlaggedTy), Mirrors (Prod.map Node.unplaced id)
      (.ok (q.close span, ty) : Except BuildError _) (.ok (q.unplaced.close .nowhere, ty)) := by
    intro q ty
    exact .ok_of_eq (by rw [← q.unplaced_close span]; rfl)
  exact .ite (hclose _ _) (.ite (hclose _ _) (.ite (hclose _ _) (.error _ _)))

theorem sharedDefault_mirrors (l : Literal) (tys : List FlaggedTy) :
    Mirrors id (sharedDefault l tys) (sharedDefault l.unplaced tys) := by
  have hrest : ∀ tys : List FlaggedTy,
      Mirrors id (tys.forM fun t => (defaultFor l t.ty).map fun _ => ())
        (tys.forM fun t => (defaultFor l.unplaced t.ty).map fun _ => ()) := by
    intro tys
    induction tys with
    | nil => exact .ok _
    | cons t tys ih =>
      have ht : Mirrors id ((defaultFor l t.ty).map fun _ => ())
          ((defaultFor l.unplaced t.ty).map fun _ => ()) := by
        have := defaultFor_mirrors l t.ty
        generalize defaultFor l t.ty = x at this ⊢
        generalize defaultFor l.unplaced t.ty = y at this ⊢
        cases this with
        | ok => exact .ok _
        | error => exact .error _ _
      exact ht.bind fun _ => ih
  cases tys with
  | nil => exact .ok _
  | cons t tys =>
    exact (defaultFor_mirrors l t.ty).bind fun _ => (hrest tys).bind fun _ => .ok _

theorem Node.unplacedAll_eq (ns : List Node) : Node.unplacedAll ns = ns.map Node.unplaced := by
  induction ns with
  | nil => rfl
  | cons n ns ih => rw [Node.unplacedAll, ih, List.map_cons]

theorem alternatives_mirrors {base : FlaggedTy} {cs : List Chain} (hcs : ∀ c, cs = [c] → False)
    (h : Mirrors (List.map (Prod.map Node.unplaced id)) (chains s base cs)
      (chains s base (Chain.unplacedAll cs))) (default : Option Literal) (span : Span) :
    Mirrors Node.unplaced (expr s base (.mk cs default span))
      (expr s base (Expr.mk cs default span).unplaced) := by
  have hcs' : ∀ c, Chain.unplacedAll cs = [c] → False := by
    intro c hc
    rw [Chain.unplacedAll_eq] at hc
    obtain ⟨c', hc', -⟩ := List.map_eq_singleton_iff.mp hc
    exact hcs c' hc'
  rw [Expr.unplaced, expr.eq_2 s base cs default span hcs, expr.eq_2 s base _ _ _ hcs']
  refine h.bind fun closed => ?_
  have hnodes : (closed.map (Prod.map Node.unplaced id)).map (·.1) =
      Node.unplacedAll (closed.map (·.1)) := by
    simp [Node.unplacedAll_eq, Function.comp_def]
  have htypes : (closed.map (Prod.map Node.unplaced id)).filterMap (·.2) =
      closed.filterMap (·.2) := by
    simp [List.filterMap_map]
  cases default with
  | none => exact .ok_of_eq (by rw [hnodes]; rfl)
  | some l =>
    simp only [Option.map_some, htypes]
    exact (sharedDefault_mirrors l _).bind fun _ => .ok_of_eq (by rw [hnodes]; rfl)

mutual

theorem expr_mirrors (base : FlaggedTy) :
    (e : Expr) → Mirrors Node.unplaced (expr s base e) (expr s base e.unplaced)
  | .mk [c] default span => by
    have hspan : c.unplaced.span = .nowhere := by
      cases c
      rfl
    simp only [Expr.unplaced, Chain.unplacedAll, expr, hspan]
    exact (chain_mirrors base c).bind fun p => finish_mirrors p c.span default
  | .mk [] default span => alternatives_mirrors s (by simp) (.ok _) default span
  | .mk (c :: d :: rest) default span =>
    alternatives_mirrors s (by simp) (chains_mirrors base (c :: d :: rest)) default span

theorem chains_mirrors (base : FlaggedTy) : (cs : List Chain) →
    Mirrors (List.map (Prod.map Node.unplaced id)) (chains s base cs)
      (chains s base (Chain.unplacedAll cs))
  | [] => .ok _
  | c :: rest => by
    have hspan : c.unplaced.span = .nowhere := by
      cases c
      rfl
    simp only [Chain.unplacedAll, chains, hspan]
    exact (chain_mirrors base c).bind fun p => (finishAlternative_mirrors p c.span).bind fun r =>
      (chains_mirrors base rest).bind fun _ => .ok _

theorem chain_mirrors (base : FlaggedTy) :
    (c : Chain) → Mirrors Path.unplaced (chain s base c) (chain s base c.unplaced)
  | .mk h steps a v span => by
    simp only [Chain.unplaced, chain]
    exact (head_mirrors s (.start base) h).bind fun p => (followAll_mirrors p steps).bind fun q =>
      chainEnd_mirrors q a v

theorem followAll_mirrors (p : Path) : (steps : List Step) →
    Mirrors Path.unplaced (followAll s p steps) (followAll s p.unplaced (Step.unplacedAll steps))
  | [] => .ok _
  | step :: rest => by
    have hdone : p.unplaced.done = p.done := rfl
    simp only [Step.unplacedAll, followAll, hdone]
    exact .ite (.ok _) ((follow_mirrors p step).bind fun q => followAll_mirrors q rest)

theorem follow_mirrors (p : Path) : (step : Step) →
    Mirrors Path.unplaced (follow s p step) (follow s p.unplaced step.unplaced)
  | .member id => navigate_mirrors s p id .member
  | .call id => navigate_mirrors s p id .method
  | .key id => navigate_mirrors s p id .key
  | .join items span => by
    have hguard : p.unplaced.guard .nowhere = (p.guard span).unplaced :=
      (p.unplaced_guard span).symm
    simp only [Step.unplaced, follow, hguard]
    exact (joined_mirrors (p.guard span).cur items).bind fun _ => .ok _

theorem joined_mirrors (base : FlaggedTy) : (items : List JoinItem) →
    Mirrors Node.unplacedAll (joined s base items) (joined s base (JoinItem.unplacedAll items))
  | [] => .ok _
  | .text text span :: rest => by
    simp only [JoinItem.unplacedAll, JoinItem.unplaced, joined]
    exact (joined_mirrors base rest).bind fun _ => .ok _
  | .expr e :: rest => by
    simp only [JoinItem.unplacedAll, JoinItem.unplaced, joined]
    exact (expr_mirrors base e).bind fun _ => (joined_mirrors base rest).bind fun _ => .ok _

end

theorem segments_mirrors (segs : List Segment) :
    Mirrors Node.unplacedAll (segments s segs) (segments s (segs.map Segment.unplaced)) := by
  induction segs with
  | nil => exact .ok _
  | cons seg rest ih =>
    cases seg with
    | text text span => exact ih.bind fun _ => .ok _
    | expr e => exact (expr_mirrors s _ e).bind fun _ => ih.bind fun _ => .ok _

section Trees

variable {σ : Type} [Sink σ] (w : World ρ)

mutual

theorem walk_unplaced (cur : FlaggedTy) (v : Value ρ) :
    (n : Node) → ∀ s : σ, walk w cur v n.unplaced s = walk w cur v n s
  | .mk kind ty span children otherwise, s => by
    have hc := fun cur v => walkAll_unplaced cur v children
    have ho := walkAll_unplaced cur v otherwise
    have hf := firstWritten_unplaced cur v children
    simp only [Node.unplaced, walk, hc, ho, hf]

theorem walkAll_unplaced (cur : FlaggedTy) (v : Value ρ) :
    (ns : List Node) → ∀ s : σ, walkAll w cur v (Node.unplacedAll ns) s = walkAll w cur v ns s
  | [], _ => rfl
  | n :: ns, s => by
    simp only [Node.unplacedAll, walkAll, walk_unplaced cur v n, walkAll_unplaced cur v ns]

theorem firstWritten_unplaced (cur : FlaggedTy) (v : Value ρ) : (ns : List Node) → ∀ s : σ,
    firstWritten w cur v (Node.unplacedAll ns) s = firstWritten w cur v ns s
  | [], _ => rfl
  | n :: ns, s => by
    simp only [Node.unplacedAll, firstWritten, walk_unplaced cur v n,
      firstWritten_unplaced cur v ns]

end

end Trees

open Routine in
mutual

theorem tooDeep?_unplaced (max depth : Nat) :
    (n : Node) → (tooDeep? max depth n.unplaced).isSome = (tooDeep? max depth n).isSome
  | .mk kind ty span children otherwise => by
    have hc := fun depth => tooDeepAll?_unplaced max depth children
    have ho := fun depth => tooDeepAll?_unplaced max depth otherwise
    have he := fun depth => tooDeepEach?_unplaced max depth children
    by_cases hd : max < depth
    · simp only [Node.unplaced, tooDeep?, hd, if_true, Option.isSome_some]
    · cases kind <;> simp only [Node.unplaced, tooDeep?, hd, if_false, Option.isSome_or, hc, ho, he]

theorem tooDeepAll?_unplaced (max depth : Nat) : (ns : List Node) →
    (tooDeepAll? max depth (Node.unplacedAll ns)).isSome = (tooDeepAll? max depth ns).isSome
  | [] => rfl
  | n :: ns => by
    simp only [Node.unplacedAll, tooDeepAll?, Option.isSome_or, tooDeep?_unplaced max depth n,
      tooDeepAll?_unplaced max depth ns]

theorem tooDeepEach?_unplaced (max depth : Nat) : (ns : List Node) →
    (tooDeepEach? max depth (Node.unplacedAll ns)).isSome = (tooDeepEach? max depth ns).isSome
  | [] => rfl
  | .mk kind ty span children otherwise :: ns => by
    have hrest := tooDeepEach?_unplaced max depth ns
    by_cases hk : kind = .concatenation
    · subst hk
      simp only [Node.unplacedAll, Node.unplaced, tooDeepEach?, Option.isSome_or, hrest,
        tooDeepAll?_unplaced max (depth + 1) children]
    · have hfirst := tooDeep?_unplaced max depth (.mk kind ty span children otherwise)
      rw [Node.unplacedAll, tooDeepEach?_other (by exact hk), tooDeepEach?_other (by exact hk),
        Option.isSome_or, Option.isSome_or, hfirst, hrest]

end

end Tree

end PathTemplate
