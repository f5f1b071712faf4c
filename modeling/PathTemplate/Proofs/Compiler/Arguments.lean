import PathTemplate.Proofs.Compiler.Defaulting
import PathTemplate.Proofs.Program.Linking

namespace PathTemplate

open PathTemplate.Tree

variable {ρ σ : Type}

structure Chain.IsPlain (c : Chain) : Prop where
  head : (∃ id, c.head = .name id) ∨ ∃ id, c.head = .key id
  steps : ∀ s ∈ c.steps, s.isJoin = false
  arithmetic : c.arithmetic = none
  conversion : c.conversion = none

namespace Tree

/-- The value behind nodes that stand one below the other; none when one of them is a guard that
goes on with its other branch. -/
def arrival? (w : World ρ) : List Node → Value ρ → Option (Value ρ)
  | [], v => some v
  | n :: below, v =>
    if n.kind.isGuard then
      if v.isNull then none else arrival? w below v
    else (w.computed? n.ty.ty v n.kind).bind (arrival? w below)

theorem arrival?_append (w : World ρ) (a b : List Node) (v : Value ρ) :
    arrival? w (a ++ b) v = (arrival? w a v).bind (arrival? w b) := by
  induction a generalizing v with
  | nil => rfl
  | cons n below ih =>
    simp only [List.cons_append, arrival?]
    split
    · split
      · rfl
      · exact ih v
    · cases w.computed? n.ty.ty v n.kind with
      | none => rfl
      | some v => exact ih v

namespace Path

def nodes (p : Path) : List Node := p.links.reverse

/-- What the nodes of a path are, guards apart. -/
def taken (p : Path) : List NodeKind :=
  (p.nodes.filter fun n => !n.kind.isGuard).map (·.kind)

/-- Whatever is put below the path starts from the value at its end. When there is none, a guard
writes its other branch instead. -/
def Carries (w : World ρ) (base : FlaggedTy) (v₀ : Value ρ) (p : Path) : Prop :=
  ∀ {σ : Type} [Sink σ] (otherwise : List Node) (s r : σ),
    (∀ cur v, walkAll w cur v otherwise s = r) → ∀ below,
      walk w base v₀ (graft (p.links.map (orElse otherwise)) below) s =
        match arrival? w p.nodes v₀ with
        | some v => walk w p.cur v below s
        | none => r

structure Follows (base : FlaggedTy) (p : Path) (accesses : List Access) : Prop where
  done : p.done = false
  notFound : p.notFound = false
  taken : p.taken = accesses.map nodeOf
  carries : ∀ {ρ : Type} (w : World ρ) (v₀ : Value ρ), p.Carries w base v₀

section

variable {w : World ρ} {base ty : FlaggedTy} {v₀ : Value ρ} {p : Path} {kind : NodeKind}
  {span : Span} {accesses : List Access}

theorem nodes_link : (p.link kind ty span).nodes = p.nodes ++ [.mk kind ty span [] []] := by
  simp [nodes, link]

theorem Carries.link_guard (h : p.Carries w base v₀) (hk : kind.isGuard) :
    (p.link kind ty span).Carries w base v₀ := by
  intro σ _ otherwise s r hr below
  have hbelow := h otherwise s r hr (.mk kind ty span [below] otherwise)
  have hnode : orElse otherwise (.mk kind ty span [] []) = .mk kind ty span [] otherwise :=
    if_pos hk
  simp only [nodes_link, arrival?_append]
  simp only [link, List.map_cons, hnode]
  refine hbelow.trans ?_
  cases arrival? w p.nodes v₀ with
  | none => rfl
  | some v =>
    simp only [Option.bind_some, arrival?, Node.kind, hk, if_true]
    cases kind with
    | optionalGuard | nullableGuard =>
      simp only [walk, World.computed?, walkAll, hr]
      split <;> rfl
    | _ => simp [NodeKind.isGuard] at hk

theorem Carries.link (h : p.Carries w base v₀) (hk : kind.isGuard = false)
    (hc : ∀ v, (w.computed? ty.ty v kind).isSome) :
    (p.link kind ty span).Carries w base v₀ := by
  intro σ _ otherwise s r hr below
  have hbelow := h otherwise s r hr (.mk kind ty span [below] [])
  have hnode : orElse otherwise (.mk kind ty span [] []) = .mk kind ty span [] [] :=
    orElse_of_not_guard (by exact hk) otherwise
  simp only [nodes_link, arrival?_append]
  simp only [Path.link, List.map_cons, hnode]
  refine hbelow.trans ?_
  cases arrival? w p.nodes v₀ with
  | none => rfl
  | some v =>
    obtain ⟨v', hv'⟩ := Option.isSome_iff_exists.mp (hc v)
    simp only [Option.bind_some, arrival?, Node.kind, Node.ty, hk, hv', Bool.false_eq_true, if_false,
      walk, walkAll]

theorem Follows.start : (Path.start base).Follows base [] :=
  ⟨rfl, rfl, rfl, fun _ _ _ _ _ _ _ _ _ => rfl⟩

theorem Follows.link_guard (h : p.Follows base accesses) (hk : kind.isGuard) :
    (p.link kind ty span).Follows base accesses := by
  refine ⟨h.done, h.notFound, ?_, fun w v₀ => Carries.link_guard (h.carries w v₀) hk⟩
  rw [← h.taken]
  simp [Path.taken, nodes_link, Node.kind, hk]

theorem Follows.guard (h : p.Follows base accesses) (span : Span) :
    (p.guard span).Follows base accesses := by
  have hopt : ∀ {q : Path}, q.Follows base accesses →
      (if q.cur.nullable then q.link .nullableGuard q.cur.present span else q).Follows base
        accesses := by
    intro q hq
    split
    · exact hq.link_guard rfl
    · exact hq
  unfold Path.guard
  split
  · exact hopt (h.link_guard rfl)
  · exact hopt h

theorem Follows.step (h : p.Follows base accesses) (a : Access) :
    (p.link (nodeOf a) ty span).Follows base (accesses ++ [a]) := by
  have hk : (nodeOf a).isGuard = false := by cases a <;> rfl
  refine ⟨h.done, h.notFound, ?_, fun w v₀ => Carries.link (h.carries w v₀) hk fun v => ?_⟩
  · rw [List.map_append, ← h.taken]
    simp [Path.taken, nodes_link, Node.kind, hk]
  · cases a <;> rfl

end

end Path

theorem nodeOf_injective : Function.Injective nodeOf := by
  intro a b h
  cases a <;> cases b <;> cases h <;> rfl

/-- How the outcome for an argument goes with the one for a path that has taken the steps `before`:
the same steps after those, or no way to go for either. -/
inductive Agrees (s : Scope ρ) (base : FlaggedTy) (before : List Access) :
    Except ResolveError (List Access × Ty) → Except BuildError Path → Prop where
  | resolves {accesses : List Access} {p : Path} (follows : p.Follows base (before ++ accesses)) :
      Agrees s base before (.ok (accesses, p.cur.ty)) (.ok p)
  | misses {e : ResolveError} {p : Path} (lenient : s.policy = .lenient) (notFound : p.notFound) :
      Agrees s base before (.error e) (.ok p)
  | fails {e e' : ResolveError} (strict : s.policy = .strict) :
      Agrees s base before (.error e) (.error (.resolve e'))

section Resolution

variable {s : Scope ρ} {base : FlaggedTy} {before : List Access} {p : Path}

theorem Agrees.cons {a : Access} {x : Except ResolveError (List Access × Ty)}
    {y : Except BuildError Path} (h : Agrees s base (before ++ [a]) x y) :
    Agrees s base before (x.map fun r => (a :: r.1, r.2)) y := by
  cases h with
  | resolves follows =>
    rw [List.append_assoc] at follows
    exact .resolves follows
  | misses lenient notFound => exact .misses lenient notFound
  | fails strict => exact .fails strict

theorem unresolved_agrees {e e' : ResolveError} {next : Path → Except BuildError Path}
    (hdone : ∀ q : Path, q.done → next q = .ok q) :
    Agrees s base before (.error e) (unresolved s p e' >>= next) := by
  unfold unresolved
  split
  next hs => exact .fails hs
  next hs =>
    have hmiss : next (p.miss e') = .ok (p.miss e') := hdone _ rfl
    simp only [bind, Except.bind, hmiss]
    exact .misses hs rfl

theorem navigate_agrees {id : Ident} {lookup : Lookup} {rest : List (Ident × Lookup)}
    {next : Path → Except BuildError Path} (hp : p.Follows base before)
    (hdone : ∀ q : Path, q.done → next q = .ok q)
    (hnext : ∀ {q : Path} {accesses : List Access}, q.Follows base accesses →
      Agrees s base accesses (accessPath s.schema q.cur.ty rest) (next q)) :
    Agrees s base before (accessPath s.schema p.cur.ty ((id, lookup) :: rest))
      (navigate s p id lookup >>= next) := by
  have hg := hp.guard id.span
  simp only [accessPath, navigate]
  rw [Path.guard_cur_ty]
  cases hs : stepFrom s.schema p.cur.ty id.name lookup with
  | error m => cases m <;> exact unresolved_agrees hdone
  | ok step =>
    obtain ⟨a, ty⟩ := step
    have htaken : ((p.guard id.span).link (nodeOf a) ty id.span).Follows base (before ++ [a]) :=
      hg.step a
    exact (hnext htaken).cons

theorem followAll_done {q : Path} (h : q.done) (steps : List Step) :
    followAll s q steps = .ok q := by
  cases steps with
  | nil => rfl
  | cons step rest =>
    simp only [followAll, h, if_true]
    rfl

theorem followAll_agrees {steps : List Step} {plain : List (Ident × Lookup)}
    (hplain : plainSteps? steps = some plain) (hp : p.Follows base before) :
    Agrees s base before (accessPath s.schema p.cur.ty plain) (followAll s p steps) := by
  induction steps generalizing p before plain with
  | nil =>
    cases hplain
    refine .resolves ?_
    rwa [List.append_nil]
  | cons step rest ih =>
    obtain ⟨id, lookup, more, hmore, rfl, hfollow⟩ := plainSteps?_cons (s := s) hplain
    simp only [followAll, hp.done, Bool.false_eq_true, if_false, hfollow]
    exact navigate_agrees hp (fun q hq => followAll_done hq rest) fun hq => ih hmore hq

theorem chain_agrees {c : Chain} (hc : c.IsPlain) (s : Scope ρ) (base : FlaggedTy) :
    ∃ plain, plainPath? c = some plain ∧
      Agrees s base [] (accessPath s.schema base.ty plain) (chain s base c) := by
  obtain ⟨head, steps, arithmetic, conversion, span⟩ := c
  obtain rfl : arithmetic = none := hc.arithmetic
  obtain rfl : conversion = none := hc.conversion
  obtain ⟨plain, hplain⟩ := plainSteps?_isSome hc.steps
  have hend : ∀ q : Path, chainEnd q none none = .ok q := by
    intro q
    unfold chainEnd
    split <;> rfl
  have hbind : ∀ x : Except BuildError Path, (x >>= fun q => chainEnd q none none) = x := by
    intro x
    cases x with
    | error e => rfl
    | ok q => exact hend q
  have hrest : ∀ id lookup, Agrees s base [] (accessPath s.schema base.ty ((id, lookup) :: plain))
      (navigate s (.start base) id lookup >>= fun q => followAll s q steps) := by
    intro id lookup
    exact navigate_agrees .start (fun q hq => followAll_done hq steps)
      fun hq => followAll_agrees hplain hq
  rcases hc.head with ⟨id, rfl⟩ | ⟨id, rfl⟩
  · refine ⟨(id, .member) :: plain, ?_, ?_⟩
    · simp [plainPath?, Chain.arithmetic, Chain.conversion, Chain.head, hplain]
    · simp only [chain, hbind]
      exact hrest id .member
  · refine ⟨(id, .key) :: plain, ?_, ?_⟩
    · simp [plainPath?, Chain.arithmetic, Chain.conversion, Chain.head, hplain]
    · simp only [chain, hbind]
      exact hrest id .key

end Resolution

theorem foldl_access_null (schema : Schema ρ) (accesses : List Access) :
    accesses.foldl (access schema) .null = .null := by
  induction accesses with
  | nil => rfl
  | cons a rest ih => cases a <;> exact ih

/-- Steps taken without a guard go where guarded ones go: behind an absent value there is nothing. -/
theorem arrival?_getD (w : World ρ) {nodes : List Node} {accesses : List Access}
    (h : (nodes.filter fun n => !n.kind.isGuard).map (·.kind) = accesses.map nodeOf)
    (v : Value ρ) : (arrival? w nodes v).getD .null = accesses.foldl (access w.schema) v := by
  induction nodes generalizing accesses v with
  | nil =>
    obtain rfl : accesses = [] := by simpa using h.symm
    rfl
  | cons n below ih =>
    simp only [arrival?]
    cases hg : n.kind.isGuard with
    | true =>
      simp only [List.filter_cons, hg, Bool.not_true, Bool.false_eq_true, if_false] at h
      cases v with
      | null => simp [Value.isNull, foldl_access_null]
      | _ => exact ih h _
    | false =>
      simp only [List.filter_cons, hg, Bool.not_false, if_true, List.map_cons] at h
      cases accesses with
      | nil => cases h
      | cons a rest =>
        obtain ⟨hkind, hrest⟩ := List.cons.inj h
        have hcomputed : w.computed? n.ty.ty v n.kind = some (access w.schema v a) := by
          rw [hkind]
          cases a <;> rfl
        simp only [hcomputed, Option.bind_some, Bool.false_eq_true, if_false]
        exact ih hrest _

theorem Path.Follows.run {s : Scope ρ} {base : FlaggedTy} {p : Path} {accesses : List Access}
    {ty : Ty} (h : p.Follows base accesses)
    (hreaches : Reaches s.schema (.record s.input) accesses ty) (env : Run.Env ρ) (temps : Nat) :
    ∃ bound, Link.argument ⟨s.schema, s.functions, temps⟩ (.path accesses) = (bound, []) ∧
      Run.argument env bound =
        (arrival? (s.world env) p.nodes (.record env.input)).getD .null := by
  have hlinks : (Link.argument ⟨s.schema, s.functions, temps⟩ (.path accesses)).2 = [] :=
    @Link.bindAll_of_reaches ρ ⟨s.schema, s.functions, temps⟩ _ _ _ hreaches
  refine ⟨_, Prod.ext rfl hlinks, ?_⟩
  rw [Link.argument_eq hlinks env, arrival?_getD (s.world env) h.taken]
  rfl

end Tree

/-- A plain chain resolves as an argument exactly if it resolves on its own from the input, to the
same steps and the same type; where it does not, both give up in the same way. The argument is then
linked without errors. For every input it has the value at the end of the chain, and is null exactly
if that is null or a guard of the chain takes its other branch. -/
theorem argument_resolves_as_chain (s : Scope ρ) {c : Chain} (hc : c.IsPlain) :
    (∀ accesses ty, argument s (.path c) = .ok (.path accesses, ty) ↔
      ∃ p, chain s (.plain (.record s.input)) c = .ok p ∧ p.notFound = false ∧
        p.taken = accesses.map nodeOf ∧ p.cur.ty = ty) ∧
    ((∃ ty, argument s (.path c) = .ok (.null, ty)) ↔
      ∃ p, chain s (.plain (.record s.input)) c = .ok p ∧ p.notFound) ∧
    ((∃ e, argument s (.path c) = .error e) ↔
      ∃ e, chain s (.plain (.record s.input)) c = .error e) ∧
    ∀ accesses ty p, argument s (.path c) = .ok (.path accesses, ty) →
      chain s (.plain (.record s.input)) c = .ok p → ∀ (env : Run.Env ρ) (temps : Nat),
        ∃ bound, Link.argument ⟨s.schema, s.functions, temps⟩ (.path accesses) = (bound, []) ∧
          Run.argument env bound =
            (arrival? (s.world env) p.nodes (.record env.input)).getD .null ∧
          ((Run.argument env bound).isNull ↔
            arrival? (s.world env) p.nodes (.record env.input) = none ∨
              ∃ v, arrival? (s.world env) p.nodes (.record env.input) = some v ∧ v.isNull) ∧
          p.Carries (s.world env) (.plain (.record s.input)) (.record env.input) := by
  obtain ⟨plain, hplain, hagrees⟩ := chain_agrees hc s (.plain (.record s.input))
  simp only [argument, hplain]
  generalize hfound : accessPath s.schema (.record s.input) plain = found
  generalize houtcome : chain s (.plain (.record s.input)) c = outcome
  replace hagrees : Agrees s (.plain (.record s.input)) [] found outcome := by
    rw [← hfound, ← houtcome]
    exact hagrees
  cases hagrees with
  | misses lenient notFound => simp [lenient, notFound]
  | fails strict => simp [strict]
  | @resolves accesses p follows =>
    refine ⟨fun accesses' ty => ⟨?_, ?_⟩, by simp [follows.notFound], by simp, ?_⟩
    · intro h
      simp only [Except.ok.injEq, Prod.mk.injEq, Argument.path.injEq] at h
      obtain ⟨rfl, rfl⟩ := h
      exact ⟨p, rfl, follows.notFound, follows.taken, rfl⟩
    · rintro ⟨p', hp, -, htaken, rfl⟩
      obtain rfl := Except.ok.inj hp
      obtain rfl : accesses = accesses' :=
        nodeOf_injective.list_map (follows.taken.symm.trans htaken)
      rfl
    · rintro accesses' ty p' h hp env temps
      simp only [Except.ok.injEq, Prod.mk.injEq, Argument.path.injEq] at h
      obtain ⟨rfl, rfl⟩ := h
      obtain rfl := Except.ok.inj hp
      obtain ⟨bound, hlinks, hrun⟩ := follows.run (accessPath_reaches hfound) env temps
      refine ⟨bound, hlinks, hrun, ?_, follows.carries _ _⟩
      rw [hrun]
      cases arrival? (s.world env) p.nodes (.record env.input) with
      | none => simp [Value.isNull]
      | some v => simp

namespace Shop

def levelPath : Chain :=
  .mk (.name ⟨"customer", .nowhere⟩) [.call ⟨"points", .nowhere⟩, .key ⟨"level", .nowhere⟩] none
    none .nowhere

def scope : Scope Shop := ⟨schema, .empty, .strict, "Order"⟩

def levelSteps : List Access :=
  [.field "Order" "customer", .method "Customer" "points", .key "level"]

end Shop

open Shop in
theorem argument_resolves_as_chain_level : levelPath.IsPlain ∧
    ∃ p bound, chain scope (.plain (.record "Order")) levelPath = .ok p ∧
      p.taken = levelSteps.map nodeOf ∧ p.cur.ty = .int ∧
      Link.argument ⟨schema, .empty, 0⟩ (.path levelSteps) = (bound, []) ∧
      Run.argument ⟨.order (some [("level", 41)]), .empty⟩ bound = .int 41 ∧
      (arrival? (scope.world ⟨.order (some [("level", 41)]), .empty⟩) p.nodes
        (.record (.order (some [("level", 41)])))).getD .null = .int 41 ∧
      Run.argument ⟨.order none, .empty⟩ bound = .null := by
  have hplain : levelPath.IsPlain :=
    ⟨.inl ⟨_, rfl⟩, by simp [levelPath, Chain.steps, Step.isJoin], rfl, rfl⟩
  obtain ⟨hresolves, -, -, hruns⟩ := argument_resolves_as_chain scope hplain
  obtain ⟨p, hp, -, htaken, hty⟩ := (hresolves levelSteps .int).mp rfl
  obtain ⟨bound, hlinks, hrun, -⟩ :=
    hruns levelSteps .int p rfl hp ⟨.order (some [("level", 41)]), .empty⟩ 0
  obtain rfl : _ = bound := congrArg Prod.fst hlinks
  exact ⟨hplain, p, _, hp, htaken, hty, hlinks, rfl, hrun.symm, rfl⟩

end PathTemplate
