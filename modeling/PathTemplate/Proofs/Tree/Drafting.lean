import PathTemplate.Proofs.Tree.Storage
import PathTemplate.Proofs.Tree.Typing
import PathTemplate.Tree.Stored

namespace PathTemplate.Tree

variable {ρ : Type}

namespace Numbered

/-- The cells of a path, given by its nodes last first, of which the last has `next` for its last
children. -/
def pathCells (next : List Nat) : List Numbered → Multiset Cell
  | [] => 0
  | t :: before =>
    (t.id, ⟨t.kind, t.ty, t.span, t.children.map Numbered.id ++ next,
        t.otherwise.map Numbered.id⟩) ::ₘ
      (cellsAll t.children + cellsAll t.otherwise + pathCells [t.id] before)

def withOtherwise (t : Numbered) (otherwise : List Numbered) : Numbered :=
  .mk t.id t.kind t.ty t.span t.children otherwise

/-- A tree hung below the last node of a path. -/
def graft (links : List Numbered) (below : Numbered) : Numbered :=
  links.foldl (fun below t => .mk t.id t.kind t.ty t.span (t.children ++ [below]) t.otherwise) below

theorem node_graft (links : List Numbered) (below : Numbered) :
    (graft links below).node = Tree.graft (links.map node) below.node := by
  induction links generalizing below with
  | nil => rfl
  | cons t before ih =>
    have hstep : (mk t.id t.kind t.ty t.span (t.children ++ [below]) t.otherwise).node =
        t.node.withChildren (t.node.children ++ [below.node]) := by
      simp [node_eq t, node, nodes_eq_map, Node.withChildren, Node.kind, Node.ty, Node.span]
    rw [graft, List.foldl_cons, ← graft, ih, hstep]
    rfl

theorem id_graft (links : List Numbered) (below : Numbered) :
    (graft links below).id = (links.getLast?.map Numbered.id).getD below.id := by
  induction links generalizing below with
  | nil => rfl
  | cons t before ih =>
    rw [graft, List.foldl_cons, ← graft, ih]
    cases before with
    | nil => rfl
    | cons u before => simp [List.getLast?_cons]

theorem cells_graft (links : List Numbered) (below : Numbered) :
    (graft links below).cells = below.cells + pathCells [below.id] links := by
  induction links generalizing below with
  | nil => simp [graft, pathCells]
  | cons t before ih =>
    rw [graft, List.foldl_cons, ← graft, ih]
    simp only [cells, pathCells, Numbered.id, List.map_append, List.map_cons, List.map_nil,
      cellsAll_append, cellsAll_singleton, ← Multiset.singleton_add]
    abel

end Numbered

def Placed (frame : Multiset Cell) (n : Node) (id : Nat) (a : Arena) : Prop :=
  ∃ t : Numbered, t.node = n ∧ t.id = id ∧ a.cells = t.cells + frame

theorem Placed.hang {a a' : Arena} {frame : Multiset Cell} {parent id : Nat} {slot : Slot} {n : Node}
    (h : Placed a.cells n id a') (ha : a.cells = (parent, slot) ::ₘ frame) :
    ∃ t : Numbered, t.node = n ∧ (a'.link parent id).cells =
      (parent, { slot with children := slot.children ++ [t.id] }) ::ₘ (t.cells + frame) := by
  obtain ⟨t, hnode, rfl, ha'⟩ := h
  rw [ha, Multiset.add_cons] at ha'
  exact ⟨t, hnode, Arena.cells_link ha' _⟩

/-- A draft, and the numbered nodes of the path that it stands for. -/
structure Draft.Shows (d : Draft) (p : Path) (links : List Numbered) : Prop where
  nodes : links.map Numbered.node = p.links
  first : d.first? = links.getLast?.map Numbered.id
  last : d.last? = links.head?.map Numbered.id
  guards : d.guards = (links.reverse.filter (·.kind.isGuard)).map Numbered.id
  cur : d.cur = p.cur
  done : d.done = p.done
  notFound : d.notFound = p.notFound

/-- The draft takes the cells that the frame does not. -/
def Draft.Holds (frame : Multiset Cell) (p : Path) (d : Draft) (a : Arena) : Prop :=
  ∃ links, d.Shows p links ∧ a.cells = Numbered.pathCells [] links + frame

namespace Draft

open Numbered

variable {d : Draft} {p : Path} {a : Arena} {frame : Multiset Cell} {kind : NodeKind}
  {ty : FlaggedTy} {span : Span}

theorem Shows.ahead {links : List Numbered} (h : d.Shows p links) :
    d.ahead = { p with links := [] } := by
  simp [Draft.ahead, h.cur, h.done, h.notFound]

theorem holds_start (base : FlaggedTy) (a : Arena) :
    (Draft.start base).Holds a.cells (.start base) a :=
  ⟨[], ⟨rfl, rfl, rfl, rfl, rfl, rfl, rfl⟩, by simp [pathCells]⟩

theorem pathCells_cons_leaf (id : Nat) (kind : NodeKind) (ty : FlaggedTy) (span : Span)
    (links : List Numbered) : pathCells [] (.mk id kind ty span [] [] :: links) =
      (id, ⟨kind, ty, span, [], []⟩) ::ₘ pathCells [id] links := by
  simp [pathCells, Numbered.id, Numbered.kind, Numbered.ty, Numbered.span, Numbered.children,
    Numbered.otherwise, cellsAll]

theorem Shows.link {links : List Numbered} (h : d.Shows p links)
    (ha : a.cells = pathCells [] links + frame) (kind : NodeKind) (ty : FlaggedTy) (span : Span) :
    ∃ d' a', d.link kind ty span a = (a.size, d', a') ∧
      d'.Shows (p.link kind ty span) (.mk a.size kind ty span [] [] :: links) ∧
      a'.cells = pathCells [] (.mk a.size kind ty span [] [] :: links) + frame := by
  have hnode : (Numbered.mk a.size kind ty span [] []).node = .mk kind ty span [] [] := rfl
  have hshows : Shows { d with
      first? := d.first?.or (some a.size)
      last? := some a.size
      guards := if kind.isGuard then d.guards ++ [a.size] else d.guards
      cur := ty } (p.link kind ty span) (.mk a.size kind ty span [] [] :: links) := by
    refine ⟨?_, ?_, rfl, ?_, rfl, h.done, h.notFound⟩
    · simp [Path.link, hnode, h.nodes]
    · cases links with
      | nil => simp [h.first, Numbered.id]
      | cons t before => simp [h.first, List.getLast?_cons]
    · simp only [h.guards, List.reverse_cons, List.filter_append, List.map_append]
      cases hk : kind.isGuard <;> simp [Numbered.kind, Numbered.id, hk]
  have hinsert := a.cells_insert ⟨kind, ty, span, [], []⟩
  cases links with
  | nil =>
    refine ⟨_, (a.insert ⟨kind, ty, span, [], []⟩).2, ?_, hshows, ?_⟩
    · simp only [Draft.link, h.last, List.head?_nil, Option.map_none]
      rfl
    · rw [hinsert, ha, pathCells_cons_leaf]
      simp [pathCells]
  | cons t before =>
    refine ⟨_, ((a.insert ⟨kind, ty, span, [], []⟩).2).link t.id a.size, ?_, hshows, ?_⟩
    · simp only [Draft.link, h.last, List.head?_cons, Option.map_some]
      rfl
    · rw [ha, pathCells, Multiset.cons_add, Multiset.cons_swap] at hinsert
      rw [Arena.cells_link hinsert, pathCells_cons_leaf, pathCells]
      simp only [List.append_nil, ← Multiset.singleton_add]
      abel

theorem Shows.withChildren {id : Nat} {kind : NodeKind} {ty : FlaggedTy} {span : Span}
    {links ts : List Numbered}
    (h : d.Shows (p.link kind ty span) (.mk id kind ty span [] [] :: links)) :
    d.Shows (p.link kind ty span (ts.map Numbered.node)) (.mk id kind ty span ts [] :: links) := by
  refine ⟨?_, ?_, h.last, ?_, h.cur, h.done, h.notFound⟩
  · have hnodes := (List.cons.inj h.nodes).2
    simp [Path.link, Numbered.node, Numbered.nodes_eq_map, hnodes]
  · rw [h.first]
    cases links <;> simp [List.getLast?_cons, Numbered.id]
  · rw [h.guards]
    simp [Numbered.kind, List.filter_append, List.filter_cons, apply_ite (List.map Numbered.id),
      Numbered.id]

def Bare (links : List Node) : Prop := ∀ n ∈ links, n.children = [] ∧ n.otherwise = []

theorem Holds.extend (h : d.Holds frame p a) {q : Path} (hq : Bare q.links) :
    ∃ d' a', d.extend q a = (d', a') ∧ d'.Holds frame { q with links := q.links ++ p.links } a' := by
  have hfold : ∀ links : List Node, Bare links → ∃ d' a',
      links.foldr (fun n r => (r.1.link n.kind n.ty n.span r.2).2) (d, a) = (d', a') ∧
        ∃ numbered, d'.Shows { p with links := links ++ p.links, cur := d'.cur } numbered ∧
          a'.cells = pathCells [] numbered + frame := by
    intro links hbare
    induction links with
    | nil =>
      obtain ⟨numbered, hshows, ha⟩ := h
      refine ⟨d, a, rfl, numbered, { hshows with cur := rfl }, ha⟩
    | cons n links ih =>
      obtain ⟨hn, hbare⟩ := List.forall_mem_cons.mp hbare
      obtain ⟨d₁, a₁, hfold, numbered, hshows, ha⟩ := ih hbare
      obtain ⟨d₂, a₂, hlink, hshows₂, ha₂⟩ := hshows.link ha n.kind n.ty n.span
      refine ⟨d₂, a₂, by rw [List.foldr_cons, hfold, hlink], _, ?_, ha₂⟩
      obtain ⟨kind, ty, span, children, otherwise⟩ := n
      obtain ⟨rfl, rfl⟩ := hn
      exact { hshows₂ with cur := rfl }
  obtain ⟨d', a', hd, numbered, hshows, ha⟩ := hfold q.links hq
  refine ⟨_, a', by rw [Draft.extend, hd], numbered, ?_, ha⟩
  exact { hshows with cur := rfl, done := rfl, notFound := rfl }

theorem close_placed {links : List Numbered} (hnodes : links.map node = p.links)
    (hfirst : d.first? = links.getLast?.map Numbered.id)
    (ha : a.cells = pathCells [] links + frame) (span : Span) :
    ∃ id a', d.close span a = (id, a') ∧ Placed frame (p.close span) id a' := by
  cases links with
  | nil =>
    have hlinks : p.links = [] := hnodes.symm
    refine ⟨a.size, (a.insert ⟨.notFound "", .unknown, span, [], []⟩).2,
      by simp only [Draft.close, hfirst]; rfl,
      .mk a.size (.notFound "") .unknown span [] [], ?_, rfl, ?_⟩
    · rw [Path.close, hlinks]
      rfl
    · rw [Arena.cells_insert, ha]
      simp [cells, cellsAll, pathCells]
  | cons last before =>
    have hlinks : p.links = last.node :: before.map node := hnodes.symm
    refine ⟨(Numbered.graft before last).id, a, ?_, Numbered.graft before last, ?_, rfl, ?_⟩
    · rw [id_graft]
      simp only [Draft.close, hfirst]
      cases before with
      | nil => rfl
      | cons t before => simp [List.getLast?_cons]
    · rw [node_graft, p.close_cons span hlinks]
    · rw [ha, cells_graft, pathCells, cells_eq, slot, List.append_nil]
      simp only [← Multiset.singleton_add]
      abel

theorem defaultGuard_cells {t : Numbered} {before : List Numbered} {next : List Nat}
    (ha : a.cells = pathCells next (t :: before) + frame) (value : Fallback) (ty : FlaggedTy)
    (span : Span) :
    (Arena.defaultGuards value ty span [t.id] a).cells =
      pathCells next (t.withOtherwise (t.otherwise ++ [.mk a.size (.default value) ty span [] []]) ::
        before) + frame := by
  have hinsert := a.cells_insert ⟨.default value, ty, span, [], []⟩
  rw [ha, pathCells, Multiset.cons_add, Multiset.cons_swap] at hinsert
  show ((a.insert ⟨.default value, ty, span, [], []⟩).2.linkOtherwise t.id a.size).cells = _
  rw [Arena.cells_linkOtherwise hinsert, pathCells]
  simp only [withOtherwise, Numbered.id, Numbered.kind, Numbered.ty, Numbered.span,
    Numbered.children, Numbered.otherwise, List.map_append, List.map_cons, List.map_nil,
    cellsAll_append, cells, cellsAll, ← Multiset.singleton_add]
  abel

theorem defaultGuards_cells (value : Fallback) (ty : FlaggedTy) (span : Span)
    (links : List Numbered) : ∀ {next : List Nat} {frame : Multiset Cell} {a : Arena},
    a.cells = pathCells next links + frame →
      ∃ links' : List Numbered, links'.map node = (links.map node).map (addDefault value ty span) ∧
        links'.map Numbered.id = links.map Numbered.id ∧
        (Arena.defaultGuards value ty span
          ((links.reverse.filter (·.kind.isGuard)).map Numbered.id) a).cells =
            pathCells next links' + frame := by
  induction links with
  | nil =>
    intro next frame a ha
    exact ⟨[], rfl, rfl, ha⟩
  | cons t before ih =>
    intro next frame a ha
    -- The guards before the last node come first, and leave its cell alone.
    have hbefore : a.cells = pathCells [t.id] before +
        ((t.id, ⟨t.kind, t.ty, t.span, t.children.map Numbered.id ++ next,
          t.otherwise.map Numbered.id⟩) ::ₘ (cellsAll t.children + cellsAll t.otherwise) + frame) := by
      rw [ha, pathCells]
      simp only [← Multiset.singleton_add]
      abel
    obtain ⟨before', hnodes, hids, ha'⟩ := ih hbefore
    have hlast : (Arena.defaultGuards value ty span
        ((before.reverse.filter (·.kind.isGuard)).map Numbered.id) a).cells =
          pathCells next (t :: before') + frame := by
      rw [ha', pathCells]
      simp only [← Multiset.singleton_add]
      abel
    have hsplit : Arena.defaultGuards value ty span
        (((t :: before).reverse.filter (·.kind.isGuard)).map Numbered.id) a =
        Arena.defaultGuards value ty span (if t.kind.isGuard then [t.id] else [])
          (Arena.defaultGuards value ty span
            ((before.reverse.filter (·.kind.isGuard)).map Numbered.id) a) := by
      simp only [Arena.defaultGuards, List.reverse_cons, List.filter_append, List.map_append,
        List.foldl_append]
      cases hk : t.kind.isGuard <;> simp [hk]
    rw [hsplit]
    cases hk : t.kind.isGuard with
    | false =>
      refine ⟨t :: before', ?_, by simp [hids], hlast⟩
      simp [hnodes, addDefault, kind_node, hk]
    | true =>
      refine ⟨_ :: before', ?_, ?_, defaultGuard_cells hlast value ty span⟩
      · simp only [List.map_cons, hnodes, addDefault, kind_node, hk, if_true]
        simp [node_eq t, withOtherwise, node, nodes_eq_map, Node.withOtherwise, Node.leaf, Node.kind,
          Node.ty, Node.span]
      · simp [hids, withOtherwise, Numbered.id]

theorem Holds.close (h : d.Holds frame p a) (span : Span) :
    ∃ id a', d.close span a = (id, a') ∧ Placed frame (p.close span) id a' := by
  obtain ⟨links, hshows, ha⟩ := h
  exact close_placed hshows.nodes hshows.first ha span

theorem Holds.close_default (h : d.Holds frame p a) (value : Fallback) (ty : FlaggedTy)
    (span : Span) :
    ∃ id a', d.close span (Arena.defaultGuards value ty span d.guards a) = (id, a') ∧
      Placed frame ((p.withDefault value ty span).close span) id a' := by
  obtain ⟨links, hshows, ha⟩ := h
  obtain ⟨links', hnodes, hids, ha'⟩ := defaultGuards_cells value ty span links ha
  rw [← hshows.guards] at ha'
  have hlinks : links'.map node = (p.withDefault value ty span).links := by
    rw [hnodes, hshows.nodes]
    rfl
  refine close_placed hlinks ?_ ha' span
  rw [hshows.first, ← List.getLast?_map, ← List.getLast?_map, hids]

theorem Holds.link (h : d.Holds frame p a) (kind : NodeKind) (ty : FlaggedTy) (span : Span) :
    ∃ d' a', d.link kind ty span a = (a.size, d', a') ∧ d'.Holds frame (p.link kind ty span) a' := by
  obtain ⟨links, hshows, ha⟩ := h
  obtain ⟨d', a', hlink, hshows', ha'⟩ := hshows.link ha kind ty span
  exact ⟨d', a', hlink, _, hshows', ha'⟩

end Draft

def Path.ahead (p : Path) : Path := { p with links := [] }

def Path.andThen (p q : Path) : Path := { q with links := q.links ++ p.links }

/-- A step that only appends bare nodes, and does not look at those before. -/
structure Onward (f : Path → Except BuildError Path) : Prop where
  eq : ∀ p, f p = (f p.ahead).map p.andThen
  bare : ∀ {p q : Path}, f p.ahead = .ok q → Draft.Bare q.links

namespace Onward

variable {f g : Path → Except BuildError Path}

theorem bind (hf : Onward f) (hg : Onward g) : Onward fun p => f p >>= g where
  eq p := by
    show f p >>= g = (f p.ahead >>= g).map p.andThen
    rw [hf.eq p]
    cases f p.ahead with
    | error e => rfl
    | ok q =>
      show g (p.andThen q) = (g q).map p.andThen
      rw [hg.eq (p.andThen q), hg.eq q]
      show (g q.ahead).map (p.andThen q).andThen = ((g q.ahead).map q.andThen).map p.andThen
      cases g q.ahead with
      | error e => rfl
      | ok r => simp [Except.map, Path.andThen]
  bare {p r} h := by
    obtain ⟨q, hq, hr⟩ := bind_eq_ok.mp h
    rw [hg.eq q] at hr
    cases hr' : g q.ahead with
    | error e => simp [hr', Except.map] at hr
    | ok r' =>
      obtain rfl : q.andThen r' = r := by simpa [hr', Except.map] using hr
      intro n hn
      rcases List.mem_append.mp hn with hn | hn
      · exact hg.bare hr' n hn
      · exact hf.bare hq n hn

theorem choose {f : Path → Path → Except BuildError Path} (h : ∀ q, Onward (f q)) :
    Onward fun p => f p.ahead p where
  eq p := (h p.ahead).eq p
  bare {p _} hq := (h p.ahead).bare hq

theorem error (e : BuildError) : Onward fun _ => .error e := ⟨fun _ => rfl, by simp⟩

theorem pure : Onward fun p => .ok p where
  eq p := rfl
  bare h := by
    cases h
    simp [Draft.Bare, Path.ahead]

theorem link (kind : NodeKind) (ty : FlaggedTy) (span : Span) :
    Onward fun p => .ok (p.link kind ty span) where
  eq p := rfl
  bare h := by
    cases h
    simp [Draft.Bare, Path.ahead, Path.link]

theorem guard (span : Span) : Onward fun p => .ok (p.guard span) := by
  have hoptional : Onward fun p => .ok (if p.cur.optional then
      p.link .optionalGuard { p.cur with optional := false } span else p) := by
    refine choose (f := fun q p => .ok (if q.cur.optional then
      p.link .optionalGuard { q.cur with optional := false } span else p)) fun q => ?_
    split
    · exact link _ _ _
    · exact pure
  have hnullable : Onward fun p => .ok (if p.cur.nullable then
      p.link .nullableGuard p.cur.present span else p) := by
    refine choose (f := fun q p => .ok (if q.cur.nullable then
      p.link .nullableGuard q.cur.present span else p)) fun q => ?_
    split
    · exact link _ _ _
    · exact pure
  exact hoptional.bind hnullable

theorem unresolved (s : Scope ρ) (e : ResolveError) : Onward fun p => unresolved s p e := by
  unfold Tree.unresolved
  split
  · exact error _
  · refine ⟨fun p => rfl, fun h => ?_⟩
    cases h
    simp [Draft.Bare, Path.ahead, Path.miss, Path.link]

theorem guarded (span : Span) (h : ∀ cur : FlaggedTy, ∃ g, Onward g ∧
    ∀ p : Path, (p.guard span).cur = cur → f p = g (p.guard span)) : Onward f := by
  choose step hstep hf using h
  have heq : f = fun p => .ok (p.guard span) >>= fun p => step p.cur p :=
    funext fun p => hf _ p rfl
  rw [heq]
  exact (guard span).bind (choose (f := fun q => step q.cur) fun q => hstep q.cur)

theorem navigate (s : Scope ρ) (id : Ident) (lookup : Lookup) :
    Onward fun p => navigate s p id lookup := by
  refine guarded id.span fun cur => ?_
  cases hs : stepFrom s.schema cur.ty id.name lookup with
  | ok step =>
    refine ⟨_, link (nodeOf step.1) step.2 id.span, fun p hcur => ?_⟩
    simp only [Tree.navigate, hcur, hs]
  | error m =>
    cases m with
    | unknownType name =>
      refine ⟨_, unresolved s (.unknownType name id.span), fun p hcur => ?_⟩
      simp only [Tree.navigate, hcur, hs]
    | noMember owner =>
      refine ⟨_, unresolved s (if lookup = .method then .unknownMethod owner id.name id.span
        else .unknownMember owner id.name id.span), fun p hcur => ?_⟩
      simp only [Tree.navigate, hcur, hs]
    | notNavigable ty =>
      refine ⟨_, unresolved s (.notNavigable ty id.name id.span), fun p hcur => ?_⟩
      simp only [Tree.navigate, hcur, hs]

theorem head (s : Scope ρ) (h : Head) : Onward fun p => head s p h := by
  cases h with
  | name id => exact navigate s id .member
  | key id => exact navigate s id .key
  | call id args =>
    simp only [Tree.head]
    cases s.functions.lookup? id.name args.length with
    | some f =>
      simp only
      cases arguments s (f.returns.ty == .unknown) args with
      | error e => exact error e
      | ok values => exact link _ _ _
    | none =>
      refine choose (f := fun q p =>
        if args.isEmpty && hasMethod s.schema q.cur.ty id.name then Tree.navigate s p id .method
        else Tree.unresolved s p
          (.unknownFunction id.name args.length (s.functions.arities id.name) id.span)) fun q => ?_
      split
      · exact navigate s id .method
      · exact unresolved s _

theorem arithmetic (a : Arithmetic) : Onward fun p => arithmetic p a := by
  refine guarded a.span fun cur => ?_
  have hlink := link (.math a.op a.operand) (.plain (promoted cur.ty a.operand)) a.span
  by_cases hnumeric : (!cur.ty.isNumeric) = true
  · refine ⟨_, error (.type (.notNumeric cur.ty a.span)), fun p hcur => ?_⟩
    simp only [Tree.arithmetic, hcur, if_pos hnumeric]
  · cases hoperand : a.operand with
    | float x =>
      refine ⟨_, hlink, fun p hcur => ?_⟩
      simp only [Tree.arithmetic, hcur, if_neg hnumeric, hoperand]
    | int n =>
      by_cases hrange : promoted cur.ty (.int n) = .int ∧
          ¬(-2147483648 ≤ n.toInt ∧ n.toInt < 2147483648)
      · refine ⟨_, error (.type (.operandOutOfRange n (promoted cur.ty (.int n)) a.span)),
          fun p hcur => ?_⟩
        simp only [Tree.arithmetic, hcur, if_neg hnumeric, hoperand, if_pos hrange]
      · by_cases hzero : ((promoted cur.ty (.int n)).isIntegral && n == 0 &&
            (a.op == .div || a.op == .rem)) = true
        · refine ⟨_, error (.type (.divisionByZero a.span)), fun p hcur => ?_⟩
          simp only [Tree.arithmetic, hcur, if_neg hnumeric, hoperand, if_neg hrange, if_pos hzero]
        · refine ⟨_, hlink, fun p hcur => ?_⟩
          simp only [Tree.arithmetic, hcur, if_neg hnumeric, hoperand, if_neg hrange, if_neg hzero]

theorem conversion (c : Conversion) : Onward fun p => conversion p c := by
  refine guarded c.span fun cur => ?_
  by_cases hcast : castAllowed cur.ty c.target = true
  · refine ⟨_, link (.cast c.target) (.plain c.target) c.span, fun p hcur => ?_⟩
    simp only [Tree.conversion, hcur, if_pos hcast]
  · refine ⟨_, error (.type (.invalidCast cur.ty c.target c.span)), fun p hcur => ?_⟩
    simp only [Tree.conversion, hcur, if_neg hcast]

theorem unlessDone (hf : Onward f) : Onward fun p => if p.done then .ok p else f p := by
  refine choose (f := fun q p => if q.done then .ok p else f p) fun q => ?_
  split
  · exact pure
  · exact hf

theorem chainEnd (a : Option Arithmetic) (c : Option Conversion) :
    Onward fun p => chainEnd p a c := by
  cases a with
  | none =>
    cases c with
    | none => exact unlessDone pure
    | some c => exact unlessDone (conversion c)
  | some a =>
    cases c with
    | none => exact unlessDone ((arithmetic a).bind pure)
    | some c => exact unlessDone ((arithmetic a).bind (conversion c))

end Onward

end PathTemplate.Tree
