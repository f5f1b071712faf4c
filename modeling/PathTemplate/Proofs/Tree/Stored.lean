import PathTemplate.Proofs.Outcome
import PathTemplate.Proofs.Tree.Drafting

namespace PathTemplate.Tree

variable {ρ : Type}

/-- A computation that stores what it makes, next to one that does not: both fail with the same error,
or their results and the arena are related. -/
inductive Tallies {α β : Type} (R : α → β → Arena → Prop) :
    Except BuildError α → Except BuildError (β × Arena) → Prop where
  | ok {x : α} {y : β} {a : Arena} (h : R x y a) : Tallies R (.ok x) (.ok (y, a))
  | error (e : BuildError) : Tallies R (.error e) (.error e)

theorem Tallies.bind {α β γ δ : Type} {R : α → β → Arena → Prop} {S : γ → δ → Arena → Prop}
    {x : Except BuildError α} {y : Except BuildError (β × Arena)} {f : α → Except BuildError γ}
    {g : β × Arena → Except BuildError (δ × Arena)} (h : Tallies R x y)
    (hf : ∀ v w a, R v w a → Tallies S (f v) (g (w, a))) : Tallies S (x >>= f) (y >>= g) := by
  cases h with
  | ok h => exact hf _ _ _ h
  | error e => exact .error e

theorem Tallies.bind_map {α β γ δ : Type} {R : α → β → Arena → Prop} {S : γ → δ → Arena → Prop}
    {x : Except BuildError α} {y : Except BuildError α} {k : α → β × Arena}
    {f : α → Except BuildError γ} {g : β × Arena → Except BuildError (δ × Arena)}
    (h : Tallies R x (y.map k)) (hf : ∀ v w a, R v w a → Tallies S (f v) (g (w, a))) :
    Tallies S (x >>= f) (y >>= fun v => g (k v)) := by
  cases y with
  | error e => exact h.bind hf
  | ok v => exact h.bind hf

theorem Tallies.of_ok {α β : Type} {R : α → β → Arena → Prop} {x : α} {r : β × Arena}
    (h : Tallies R (.ok x) (.ok r)) : R x r.1 r.2 := by
  cases h
  assumption

theorem Tallies.map {α β γ : Type} {R : α → β → Arena → Prop} {S : γ → β → Arena → Prop}
    {x : Except BuildError α} {y : Except BuildError (β × Arena)} {f : α → γ} (h : Tallies R x y)
    (hf : ∀ v w a, R v w a → S (f v) w a) : Tallies S (x >>= fun v => pure (f v)) y := by
  cases h with
  | ok h => exact .ok (hf _ _ _ h)
  | error e => exact .error e

theorem Draft.Holds.step {d : Draft} {p : Path} {a : Arena} {frame : Multiset Cell}
    (h : d.Holds frame p a) {f : Path → Except BuildError Path} (hf : Onward f) :
    Tallies (fun q d' a' => d'.Holds frame q a') (f p)
      ((f d.ahead).map fun q => d.extend q a) := by
  obtain ⟨links, hshows, ha⟩ := h
  have hahead : d.ahead = p.ahead := hshows.ahead
  rw [hahead, hf.eq p]
  cases hq : f p.ahead with
  | error e => exact .error e
  | ok q =>
    obtain ⟨d', a', hextend, hholds⟩ := Holds.extend ⟨links, hshows, ha⟩ (hf.bare hq)
    simp only [Except.map, hextend]
    exact .ok hholds

namespace Stored

variable {s : Scope ρ} {d : Draft} {p : Path} {a : Arena} {frame : Multiset Cell}

theorem close_tallies (h : d.Holds frame p a) (value : Option Fallback) (ty : FlaggedTy)
    (span : Span) :
    Tallies (Placed frame)
      (match value with
      | some v => pure ((p.withDefault v ty span).close span)
      | none => pure (p.close span))
      (match value with
      | some v => pure (d.close span (Arena.defaultGuards v ty span d.guards a))
      | none => pure (d.close span a)) := by
  cases value with
  | none =>
    obtain ⟨id, a', hclose, hplaced⟩ := h.close span
    simp only [hclose]
    exact .ok hplaced
  | some v =>
    obtain ⟨id, a', hclose, hplaced⟩ := h.close_default v ty span
    simp only [hclose]
    exact .ok hplaced

theorem finish_tallies (h : d.Holds frame p a) (span : Span) (default : Option Literal) :
    Tallies (Placed frame) (Tree.finish p span default) (finish d span default a) := by
  have hcur : d.cur = p.cur := h.choose_spec.1.cur
  have hdone : d.done = p.done := h.choose_spec.1.done
  have hnotFound : d.notFound = p.notFound := h.choose_spec.1.notFound
  simp only [finish, Tree.finish, hcur, hdone, hnotFound]
  split
  · cases default with
    | none =>
      obtain ⟨id, a', hclose, hplaced⟩ := h.close span
      simp only [hclose]
      exact .ok hplaced
    | some l =>
      obtain ⟨d', a', hlink, hholds⟩ := h.link (.default (naturalDefault l)) (.plain .string) l.span
      obtain ⟨id, a'', hclose, hplaced⟩ :=
        hholds.close_default (naturalDefault l) (.plain .string) span
      simp only [hlink, hclose]
      exact .ok hplaced
  · cases default.mapM fun l => defaultFor l p.cur.ty with
    | error e => exact .error e
    | ok value =>
      cases p.done with
      | true => exact close_tallies h value (.plain p.cur.ty) span
      | false =>
        cases p.cur.ty.isPrintable with
        | false => exact .error _
        | true =>
          obtain ⟨d', a', hlink, hholds⟩ := h.link (.print value) p.cur span
          have hlinked : (d.link (.print value) p.cur span a).2.1.Holds frame
              (p.link (.print value) p.cur span) (d.link (.print value) p.cur span a).2.2 := by
            rw [hlink]
            exact hholds
          exact close_tallies hlinked value (.plain p.cur.ty) span

theorem finishAlternative_tallies (h : d.Holds frame p a) (span : Span) :
    Tallies (fun r r' a' => r'.2 = r.2 ∧ Placed frame r.1 r'.1 a') (Tree.finishAlternative p span)
      (finishAlternative d span a) := by
  have hcur : d.cur = p.cur := h.choose_spec.1.cur
  have hdone : d.done = p.done := h.choose_spec.1.done
  have hnotFound : d.notFound = p.notFound := h.choose_spec.1.notFound
  obtain ⟨id, a₁, hclose, hplaced⟩ := h.close span
  simp only [finishAlternative, Tree.finishAlternative, hcur, hdone, hnotFound, hclose]
  split
  · exact .ok ⟨rfl, hplaced⟩
  · split
    · exact .ok ⟨rfl, hplaced⟩
    · split
      · obtain ⟨d', a', hlink, hholds⟩ := h.link (.print none) p.cur span
        obtain ⟨id, a'', hclose, hplaced⟩ := hholds.close span
        simp only [hlink, hclose]
        exact .ok ⟨rfl, hplaced⟩
      · exact .error _

/-- A stored node has got more children, which take the cells that the frame does not. -/
def Hung (frame : Multiset Cell) (parent : Nat) (slot : Slot) (children : List Node) (a : Arena) :
    Prop :=
  ∃ ts : List Numbered, ts.map Numbered.node = children ∧
    a.cells = (parent, { slot with children := slot.children ++ ts.map Numbered.id }) ::ₘ
      (Numbered.cellsAll ts + frame)

theorem hung_nil {parent : Nat} {slot : Slot} (ha : a.cells = (parent, slot) ::ₘ frame) :
    Hung frame parent slot [] a :=
  ⟨[], rfl, by simpa [Numbered.cellsAll] using ha⟩

theorem Hung.cons {parent : Nat} {slot : Slot} {t : Numbered} {children : List Node}
    (h : Hung (t.cells + frame) parent { slot with children := slot.children ++ [t.id] } children
      a) : Hung frame parent slot (t.node :: children) a := by
  obtain ⟨ts, hts, ha⟩ := h
  refine ⟨t :: ts, by simp [hts], ?_⟩
  rw [ha, Numbered.cellsAll]
  simp only [List.map_cons, List.append_assoc, List.singleton_append]
  congr 1
  abel

theorem literal_placed (text : String) (span : Span) (a : Arena) :
    ∃ id a', literal text span a = (id, a') ∧ Placed a.cells (literalNode text span) id a' := by
  refine ⟨a.size, (a.insert ⟨.literal text, .plain .string, span, [], []⟩).2, rfl,
    .mk a.size (.literal text) (.plain .string) span [] [], rfl, rfl, ?_⟩
  rw [Arena.cells_insert]
  simp [Numbered.cells, Numbered.cellsAll]

theorem alternatives_tallies {base : FlaggedTy} {cs : List Chain}
    (hcs : ∀ {a : Arena} {frame : Multiset Cell} {parent : Nat} {slot : Slot},
      a.cells = (parent, slot) ::ₘ frame →
        Tallies (fun closed types a' => types = closed.map (·.2) ∧
            Hung frame parent slot (closed.map (·.1)) a')
          (Tree.chains s base cs) (chains s base parent cs a))
    (default : Option Literal) (span : Span) (a : Arena) :
    Tallies (Placed a.cells)
      (do
        let closed ← Tree.chains s base cs
        let otherwise ← match default with
          | none => pure []
          | some l => do
            let value ← sharedDefault l (closed.filterMap (·.2))
            pure [.leaf (.default value) (.plain .string) l.span]
        return .mk .orFallback (.plain .string) span (closed.map (·.1)) otherwise)
      (do
        let (types, a') ← chains s base a.size cs
          (a.insert ⟨.orFallback, .plain .string, span, [], []⟩).2
        match default with
        | none => return (a.size, a')
        | some l => do
          let value ← sharedDefault l (types.filterMap fun t => t)
          let (leaf, a'') := a'.insert ⟨.default value, .plain .string, l.span, [], []⟩
          return (a.size, a''.linkOtherwise a.size leaf)) := by
  refine (hcs (a.cells_insert _)).bind fun closed types a' h => ?_
  obtain ⟨rfl, ts, hts, ha'⟩ := h
  simp only [List.nil_append] at ha'
  cases default with
  | none =>
    refine .ok ⟨.mk a.size .orFallback (.plain .string) span ts [], ?_, rfl, ?_⟩
    · simp [Numbered.node, Numbered.nodes_eq_map, hts]
    · rw [ha']
      simp [Numbered.cells, Numbered.cellsAll]
  | some l =>
    have hfilter : (closed.map (·.2)).filterMap (fun t => t) = closed.filterMap (·.2) := by
      rw [List.filterMap_map]
      rfl
    simp only [hfilter]
    cases sharedDefault l (closed.filterMap (·.2)) with
    | error e => exact .error e
    | ok value =>
      have hinsert := a'.cells_insert ⟨.default value, .plain .string, l.span, [], []⟩
      rw [ha', Multiset.cons_swap] at hinsert
      refine .ok ⟨.mk a.size .orFallback (.plain .string) span ts
        [.mk a'.size (.default value) (.plain .string) l.span [] []], ?_, rfl, ?_⟩
      · simp [Numbered.node, Numbered.nodes_eq_map, hts, Node.leaf]
      · refine (Arena.cells_linkOtherwise hinsert _).trans ?_
        simp only [Arena.insert, Numbered.cells, Numbered.cellsAll, Numbered.id, List.map_cons,
          List.map_nil, List.nil_append, ← Multiset.singleton_add]
        abel

mutual

theorem expr_tallies {base : FlaggedTy} (e : Expr) (a : Arena) :
    Tallies (Placed a.cells) (Tree.expr s base e) (expr s base e a) :=
  match e with
  | .mk [c] default span => by
    simp only [Tree.expr, expr]
    exact (chain_tallies c a).bind fun p d a' h => finish_tallies h c.span default
  | .mk [] default span => alternatives_tallies (fun ha => chains_tallies [] ha) default span a
  | .mk (c :: c' :: cs) default span =>
    alternatives_tallies (fun ha => chains_tallies (c :: c' :: cs) ha) default span a

theorem chains_tallies {base : FlaggedTy} (cs : List Chain) {a : Arena} {frame : Multiset Cell}
    {parent : Nat} {slot : Slot} (ha : a.cells = (parent, slot) ::ₘ frame) :
    Tallies (fun closed types a' => types = closed.map (·.2) ∧
        Hung frame parent slot (closed.map (·.1)) a')
      (Tree.chains s base cs) (chains s base parent cs a) :=
  match cs with
  | [] => .ok ⟨rfl, hung_nil ha⟩
  | c :: rest => by
    simp only [Tree.chains, chains]
    refine (chain_tallies c _).bind fun p d a₁ h₁ => ?_
    refine (finishAlternative_tallies h₁ c.span).bind fun closed r a₂ h₂ => ?_
    obtain ⟨hty, t, hnode, hid, ha₂⟩ := h₂
    have hlinked : ((a₂.link a.size r.1).link parent a.size).cells =
        (parent, { slot with children := slot.children ++ [a.size] }) ::ₘ
          ((Numbered.mk a.size .concatenation (.plain .string) c.span [t] []).cells + frame) := by
      rw [a.cells_insert, ha, Multiset.add_cons] at ha₂
      have hfirst := Arena.cells_link ha₂ r.1
      rw [Multiset.add_cons, Multiset.cons_swap] at hfirst
      rw [Arena.cells_link hfirst, ← hid]
      simp only [Numbered.cells, Numbered.cellsAll, List.map_cons, List.map_nil, List.nil_append,
        ← Multiset.singleton_add]
      abel
    refine (chains_tallies rest hlinked).bind fun more types a₃ h₃ => ?_
    refine .ok ⟨by rw [h₃.1, hty]; rfl, ?_⟩
    have hung := h₃.2.cons
    simpa [Numbered.node, Numbered.nodes, hnode] using hung

theorem chain_tallies {base : FlaggedTy} (c : Chain) (a : Arena) :
    Tallies (fun p d a' => d.Holds a.cells p a') (Tree.chain s base c) (chain s base c a) :=
  match c with
  | .mk h steps arithmetic conversion span => by
    simp only [Tree.chain, chain]
    refine Tallies.bind_map
      (g := fun r => do
        let r ← followAll s r.1 steps r.2
        let p ← chainEnd r.1.ahead arithmetic conversion
        return r.1.extend p r.2)
      ((Draft.holds_start base a).step (.head s h)) fun p d a₁ h₁ => ?_
    refine (followAll_tallies steps h₁).bind fun p d a₂ h₂ => ?_
    exact h₂.step (.chainEnd arithmetic conversion)

theorem followAll_tallies (steps : List Step) {d : Draft} {p : Path} {a : Arena}
    {frame : Multiset Cell} (h : d.Holds frame p a) :
    Tallies (fun p d a' => d.Holds frame p a') (Tree.followAll s p steps)
      (followAll s d steps a) :=
  match steps with
  | [] => .ok h
  | step :: rest => by
    have hdone : d.done = p.done := h.choose_spec.1.done
    simp only [Tree.followAll, followAll, hdone]
    split
    · exact .ok h
    · exact (follow_tallies step h).bind fun p d a' h' => followAll_tallies rest h'

theorem follow_tallies (step : Step) {d : Draft} {p : Path} {a : Arena} {frame : Multiset Cell}
    (h : d.Holds frame p a) :
    Tallies (fun p d a' => d.Holds frame p a') (Tree.follow s p step) (follow s d step a) :=
  match step with
  | .member id => h.step (.navigate s id .member)
  | .call id => h.step (.navigate s id .method)
  | .key id => h.step (.navigate s id .key)
  | .join items span => by
    simp only [Tree.follow, follow]
    have hguard : (d.extend (d.ahead.guard span) a).1.Holds frame (p.guard span)
        (d.extend (d.ahead.guard span) a).2 := (h.step (.guard span)).of_ok
    generalize d.extend (d.ahead.guard span) a = r at hguard ⊢
    obtain ⟨d₁, a₁⟩ := r
    obtain ⟨links, hshows, ha₁⟩ := hguard
    dsimp only at hshows ha₁
    obtain ⟨d₂, a₂, hlink, hshows₂, ha₂⟩ := hshows.link ha₁ .concatenation (.plain .string) span
    rw [Draft.pathCells_cons_leaf, Multiset.cons_add] at ha₂
    simp only [hlink, hshows.cur]
    refine (joined_tallies items ha₂).bind fun children _ a₃ h₃ => ?_
    obtain ⟨ts, rfl, ha₃⟩ := h₃
    refine .ok ⟨.mk a₁.size .concatenation (.plain .string) span ts [] :: links, ?_, ?_⟩
    · exact { hshows₂.withChildren with done := rfl }
    · rw [ha₃]
      simp [Numbered.pathCells, Numbered.id, Numbered.kind, Numbered.ty, Numbered.span,
        Numbered.children, Numbered.otherwise, Numbered.cellsAll, add_assoc]

theorem joined_tallies {base : FlaggedTy} (items : List JoinItem) {a : Arena}
    {frame : Multiset Cell} {parent : Nat} {slot : Slot} (ha : a.cells = (parent, slot) ::ₘ frame) :
    Tallies (fun children _ a' => Hung frame parent slot children a')
      (Tree.joined s base items) (joined s base parent items a) :=
  match items with
  | [] => .ok (hung_nil ha)
  | .text text span :: rest => by
    obtain ⟨id, a₁, hliteral, hplaced⟩ := literal_placed text span a
    simp only [Tree.joined, joined, hliteral]
    obtain ⟨t, hnode, ha₁⟩ := hplaced.hang ha
    rw [← hnode]
    exact (joined_tallies rest ha₁).map fun more _ a₂ h => h.cons
  | .expr e :: rest => by
    simp only [Tree.joined, joined]
    refine (expr_tallies e a).bind fun n id a₁ h₁ => ?_
    obtain ⟨t, rfl, ha₁⟩ := Placed.hang h₁ ha
    exact (joined_tallies rest ha₁).map fun more _ a₂ h => h.cons

end

theorem segments_tallies (segs : List Segment) {a : Arena} {frame : Multiset Cell} {parent : Nat}
    {slot : Slot} (ha : a.cells = (parent, slot) ::ₘ frame) :
    Tallies (fun children _ a' => Hung frame parent slot children a')
      (Tree.segments s segs) (segments s parent segs a) := by
  induction segs generalizing a frame slot with
  | nil => exact .ok (hung_nil ha)
  | cons seg rest ih =>
    cases seg with
    | text text span =>
      obtain ⟨id, a₁, hliteral, hplaced⟩ := literal_placed text span a
      obtain ⟨t, hnode, ha₁⟩ := hplaced.hang ha
      simp only [Tree.segments, segments, hliteral, ← hnode]
      exact (ih ha₁).map fun more _ a₂ h => h.cons
    | expr e =>
      refine (expr_tallies e a).bind fun n id a₁ h₁ => ?_
      obtain ⟨t, rfl, ha₁⟩ := Placed.hang h₁ ha
      exact (ih ha₁).map fun more _ a₂ h => h.cons

/-- A template is resolved into an arena just as it is into a tree. The tree takes all of the cells
there. -/
theorem ofTemplate_tallies (s : Scope ρ) (sink : String) (t : Template) :
    Tallies (Placed 0) (Tree.ofTemplate s sink t) (ofTemplate s sink t) := by
  unfold Tree.ofTemplate ofTemplate
  cases s.schema.shape? s.input with
  | none => exact .error _
  | some shape =>
    refine (segments_tallies t.segments (Arena.cells_insert _ _)).bind fun children _ a h => ?_
    obtain ⟨ts, rfl, ha⟩ := h
    refine .ok ⟨.mk 0 (.root s.input sink) (.plain (.record s.input)) .nowhere ts [], ?_, rfl, ?_⟩
    · simp [Numbered.node, Numbered.nodes_eq_map, Node.root]
    · rw [ha]
      simp [Numbered.cells, Numbered.cellsAll, show Arena.empty.size = 0 from rfl]

end Stored

end PathTemplate.Tree
