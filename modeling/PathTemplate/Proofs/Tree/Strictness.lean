import PathTemplate.Proofs.Tree.Resolved

/-!
The two policies. They differ only where a name leads nowhere, and a tree shows whether that has
happened: the strict policy accepts exactly those templates whose lenient tree is complete, and makes
the same tree of them.
-/

namespace PathTemplate.Tree

variable {ρ ε α β : Type}

/-- Whether the node does not stand for a name that leads nowhere, nor has an argument that does. -/
def NodeKind.isComplete : NodeKind → Bool
  | .notFound _ => false
  | .function _ args => args.all fun a => a != .null
  | _ => true

def Node.IsComplete (n : Node) : Prop := ∀ m ∈ n.walk, m.kind.isComplete

theorem Node.mem_walkAll {m : Node} {ns : List Node} :
    m ∈ Node.walkAll ns ↔ ∃ n ∈ ns, m ∈ n.walk := by
  induction ns with
  | nil => simp [Node.walkAll]
  | cons n ns ih => simp [Node.walkAll, ih]

theorem Node.forall_walk_mk {P : Node → Prop} {kind : NodeKind} {ty : FlaggedTy} {span : Span}
    {children otherwise : List Node} :
    (∀ m ∈ (Node.mk kind ty span children otherwise).walk, P m) ↔
      P (.mk kind ty span children otherwise) ∧ (∀ c ∈ children, ∀ m ∈ c.walk, P m) ∧
        ∀ c ∈ otherwise, ∀ m ∈ c.walk, P m := by
  simp only [Node.walk, List.forall_mem_cons, List.forall_mem_append, Node.mem_walkAll]
  constructor
  · rintro ⟨hk, hc, ho⟩
    exact ⟨hk, fun c hm m hw => hc m ⟨c, hm, hw⟩, fun c hm m hw => ho m ⟨c, hm, hw⟩⟩
  · rintro ⟨hk, hc, ho⟩
    refine ⟨hk, ?_, ?_⟩
    · rintro m ⟨c, hm, hw⟩
      exact hc c hm m hw
    · rintro m ⟨c, hm, hw⟩
      exact ho c hm m hw

theorem Node.isComplete_mk {kind : NodeKind} {ty : FlaggedTy} {span : Span}
    {children otherwise : List Node} :
    (Node.mk kind ty span children otherwise).IsComplete ↔
      kind.isComplete ∧ (∀ c ∈ children, c.IsComplete) ∧ ∀ c ∈ otherwise, c.IsComplete :=
  Node.forall_walk_mk

theorem Node.isComplete_leaf {kind : NodeKind} {ty : FlaggedTy} {span : Span} :
    (Node.leaf kind ty span).IsComplete ↔ kind.isComplete := by
  simp [Node.leaf, Node.isComplete_mk]

theorem isComplete_graft {links : List Node} {below : Node} :
    (graft links below).IsComplete ↔ below.IsComplete ∧ ∀ n ∈ links, n.IsComplete := by
  induction links generalizing below with
  | nil => simp [graft]
  | cons n links ih =>
    have hgraft : graft (n :: links) below =
        graft links (n.withChildren (n.children ++ [below])) := rfl
    obtain ⟨kind, ty, span, children, otherwise⟩ := n
    rw [hgraft, ih]
    simp only [Node.withChildren, Node.children_mk, Node.otherwise_mk, Node.isComplete_mk,
      List.forall_mem_append, List.forall_mem_cons, Node.kind]
    simp only [List.not_mem_nil, false_implies, implies_true, and_true]
    grind

theorem isComplete_addDefault {value : Fallback} {ty : FlaggedTy} {span : Span} {n : Node} :
    (addDefault value ty span n).IsComplete ↔ n.IsComplete := by
  obtain ⟨kind, nty, nspan, children, otherwise⟩ := n
  have hleaf : (Node.leaf (.default value) ty span).IsComplete := Node.isComplete_leaf.mpr rfl
  unfold addDefault
  split
  · simp only [Node.withOtherwise, Node.isComplete_mk, Node.kind, Node.children_mk,
      Node.otherwise_mk, List.forall_mem_append, List.forall_mem_singleton, hleaf, and_true]
  · rfl

def Path.IsComplete (p : Path) : Prop := ∀ n ∈ p.links, n.IsComplete

namespace Path

variable {p : Path} {kind : NodeKind} {ty : FlaggedTy} {span : Span}

theorem isComplete_start (base : FlaggedTy) : (start base).IsComplete := by
  simp [IsComplete, start]

theorem isComplete_link {children : List Node} :
    (p.link kind ty span children).IsComplete ↔
      kind.isComplete ∧ (∀ c ∈ children, c.IsComplete) ∧ p.IsComplete := by
  simp [IsComplete, link, Node.isComplete_mk, and_assoc]

theorem isComplete_guard : (p.guard span).IsComplete ↔ p.IsComplete := by
  unfold guard
  dsimp only
  split <;> split <;> simp [isComplete_link, NodeKind.isComplete]

theorem isComplete_withDefault {value : Fallback} {place : Span} :
    (p.withDefault value ty place).IsComplete ↔ p.IsComplete := by
  simp [IsComplete, withDefault_links, isComplete_addDefault]

theorem isComplete_close (h : p.links ≠ []) : (p.close span).IsComplete ↔ p.IsComplete := by
  obtain ⟨last, before, hl⟩ := List.exists_cons_of_ne_nil h
  rw [p.close_cons span hl, isComplete_graft, IsComplete, hl, List.forall_mem_cons]

end Path

/-- The first run has a result exactly when the second has the same one and it is good. -/
def Restricts (Good : α → Prop) (x y : Except ε α) : Prop :=
  ∀ a, x = .ok a ↔ y = .ok a ∧ Good a

namespace Restricts

variable {Good : α → Prop} {Fine : β → Prop} {x y : Except ε α} {f g : α → Except ε β}

theorem refl (h : ∀ a, x = .ok a → Good a) : Restricts Good x x :=
  fun a => ⟨fun ha => ⟨ha, h a ha⟩, fun ha => ha.1⟩

theorem ok {a : α} (h : Good a) : Restricts Good (.ok a : Except ε α) (.ok a) :=
  refl fun _ hb => by cases hb; exact h

theorem error (e e' : ε) : Restricts Good (.error e) (.error e') := by
  intro a
  simp

theorem miss {a : α} (e : ε) (h : ¬ Good a) : Restricts Good (.error e) (.ok a) := by
  intro b
  constructor
  · intro hb
    cases hb
  · rintro ⟨hb, hgood⟩
    cases hb
    exact absurd hgood h

theorem bind (hx : Restricts Good x y)
    (hf : ∀ a, y = .ok a → Good a → Restricts Fine (f a) (g a))
    (hback : ∀ a b, y = .ok a → g a = .ok b → Fine b → Good a) :
    Restricts Fine (x >>= f) (y >>= g) := by
  intro b
  rw [bind_eq_ok, bind_eq_ok]
  constructor
  · rintro ⟨a, hxa, hfb⟩
    obtain ⟨hya, hgood⟩ := (hx a).mp hxa
    obtain ⟨hgb, hfine⟩ := (hf a hya hgood b).mp hfb
    exact ⟨⟨a, hya, hgb⟩, hfine⟩
  · rintro ⟨⟨a, hya, hgb⟩, hfine⟩
    have hgood := hback a b hya hgb hfine
    exact ⟨a, (hx a).mpr ⟨hya, hgood⟩, (hf a hya hgood b).mpr ⟨hgb, hfine⟩⟩

theorem andThen (hx : Restricts Good x y)
    (h : ∀ a b, y = .ok a → f a = .ok b → (Fine b ↔ Good a)) :
    Restricts Fine (x >>= f) (y >>= f) :=
  hx.bind (fun a hya hgood => refl fun b hfb => (h a b hya hfb).mpr hgood)
    fun a b hya hfb hfine => (h a b hya hfb).mp hfine

theorem map {make : α → β} (hx : Restricts Good x y) (h : ∀ a, Fine (make a) ↔ Good a) :
    Restricts Fine (do return make (← x)) (do return make (← y)) := by
  refine hx.andThen fun a b _ hb => ?_
  cases hb
  exact h a

theorem cons {xs ys : Except ε (List α)} (hx : Restricts Good x y)
    (hxs : Restricts (fun l => ∀ a ∈ l, Good a) xs ys) :
    Restricts (fun l => ∀ a ∈ l, Good a) (do return (← x) :: (← xs))
      (do return (← y) :: (← ys)) := by
  refine hx.bind (fun a _ ha => hxs.map fun l => by simp [ha]) fun a l _ hl hgood => ?_
  obtain ⟨more, -, hl⟩ := bind_eq_ok.mp hl
  cases hl
  exact hgood a List.mem_cons_self

end Restricts

def Scope.under (s : Scope ρ) (policy : Policy) : Scope ρ := { s with policy }

variable {s : Scope ρ}

@[simp] theorem Scope.schema_under (s : Scope ρ) (policy : Policy) :
    (s.under policy).schema = s.schema := rfl

@[simp] theorem Scope.functions_under (s : Scope ρ) (policy : Policy) :
    (s.under policy).functions = s.functions := rfl

@[simp] theorem Scope.input_under (s : Scope ρ) (policy : Policy) :
    (s.under policy).input = s.input := rfl

theorem argument_restricts (a : Arg) :
    Restricts (fun r => r.1 ≠ .null) (argument (s.under .strict) a)
      (argument (s.under .lenient) a) := by
  cases a with
  | literal l =>
    refine .refl fun r hr => ?_
    simp only [argument] at hr
    split at hr <;> cases hr
    simp
  | path c =>
    simp only [argument, Scope.under]
    cases plainPath? c with
    | none => exact .error _ _
    | some steps =>
      dsimp only
      cases accessPath s.schema (.record s.input) steps with
      | ok r =>
        dsimp only
        exact .ok (by simp)
      | error e =>
        dsimp only
        exact .miss _ fun h => h rfl

theorem arguments_restricts (passthrough : Bool) (args : List Arg) :
    Restricts (fun values => ∀ v ∈ values, v ≠ .null)
      (arguments (s.under .strict) passthrough args)
      (arguments (s.under .lenient) passthrough args) := by
  induction args with
  | nil => exact .ok (by simp)
  | cons a rest ih =>
    simp only [arguments]
    refine (argument_restricts a).bind (fun r _ hr => ?_) fun r values _ hv hgood => ?_
    · obtain ⟨value, ty⟩ := r
      dsimp only
      split
      · exact .error _ _
      · exact ih.map fun values => by simpa using fun _ => hr
    · obtain ⟨value, ty⟩ := r
      dsimp only at hv
      split at hv
      · cases hv
      · obtain ⟨more, -, hv⟩ := bind_eq_ok.mp hv
        cases hv
        exact hgood value List.mem_cons_self

theorem unresolved_restricts (p : Path) (e : ResolveError) :
    Restricts Path.IsComplete (unresolved (s.under .strict) p e)
      (unresolved (s.under .lenient) p e) := by
  refine .miss _ fun h => ?_
  have hlast := h _ List.mem_cons_self
  exact Bool.false_ne_true (Node.isComplete_mk.mp hlast).1

theorem isComplete_nodeOf (a : Access) : (nodeOf a).isComplete := by
  cases a <;> rfl

theorem navigate_restricts {p : Path} (hp : p.IsComplete) (id : Ident) (lookup : Lookup) :
    Restricts Path.IsComplete (navigate (s.under .strict) p id lookup)
      (navigate (s.under .lenient) p id lookup) := by
  have hg : (p.guard id.span).IsComplete := Path.isComplete_guard.mpr hp
  simp only [navigate, Scope.schema_under]
  split
  · exact .ok (Path.isComplete_link.mpr ⟨isComplete_nodeOf _, by simp, hg⟩)
  all_goals exact unresolved_restricts _ _

theorem unresolved_back {p q : Path} {e : ResolveError} (h : unresolved s p e = .ok q)
    (hq : q.IsComplete) : p.IsComplete := by
  unfold unresolved at h
  split at h
  · cases h
  · cases h
    exact fun n hn => hq n (List.mem_cons_of_mem _ hn)

theorem navigate_back {p q : Path} {id : Ident} {lookup : Lookup}
    (h : navigate s p id lookup = .ok q) (hq : q.IsComplete) : p.IsComplete := by
  refine Path.isComplete_guard.mp (?_ : (p.guard id.span).IsComplete)
  simp only [navigate] at h
  split at h
  · cases h
    exact (Path.isComplete_link.mp hq).2.2
  all_goals exact unresolved_back h hq

theorem head_restricts {p : Path} (hp : p.IsComplete) (h : Head) :
    Restricts Path.IsComplete (head (s.under .strict) p h) (head (s.under .lenient) p h) := by
  cases h with
  | name id => exact navigate_restricts hp id .member
  | key id => exact navigate_restricts hp id .key
  | call id args =>
    simp only [head]
    rw [s.functions_under .strict, s.functions_under .lenient, s.schema_under .strict,
      s.schema_under .lenient]
    split
    · refine (arguments_restricts _ args).map fun values => ?_
      simp [Path.isComplete_link, NodeKind.isComplete, hp]
    · split
      · exact navigate_restricts hp id .method
      · exact unresolved_restricts p _

theorem follow_back {p q : Path} {step : Step} (h : follow s p step = .ok q)
    (hq : q.IsComplete) : p.IsComplete := by
  cases step with
  | member id => exact navigate_back h hq
  | call id => exact navigate_back h hq
  | key id => exact navigate_back h hq
  | join items span =>
    simp only [follow, bind_eq_ok, pure_eq_ok] at h
    obtain ⟨children, -, rfl⟩ := h
    exact Path.isComplete_guard.mp fun n hn => hq n (List.mem_cons_of_mem _ hn)

theorem followAll_back {p q : Path} {steps : List Step} (h : followAll s p steps = .ok q)
    (hq : q.IsComplete) : p.IsComplete := by
  induction steps generalizing p with
  | nil =>
    cases h
    exact hq
  | cons step rest ih =>
    simp only [followAll] at h
    split at h
    · cases h
      exact hq
    · obtain ⟨p', hp', h⟩ := bind_eq_ok.mp h
      exact follow_back hp' (ih h)

theorem arithmetic_isComplete {p q : Path} {a : Arithmetic} (h : arithmetic p a = .ok q) :
    q.IsComplete ↔ p.IsComplete := by
  have hlink : ∀ ty, ((p.guard a.span).link (.math a.op a.operand) ty a.span).IsComplete ↔
      p.IsComplete := fun ty => by
    simp [Path.isComplete_link, NodeKind.isComplete, Path.isComplete_guard]
  simp only [arithmetic] at h
  split at h
  · cases h
  · split at h
    · cases h
      exact hlink _
    · split at h
      · cases h
      · split at h <;> cases h
        exact hlink _

theorem conversion_isComplete {p q : Path} {c : Conversion} (h : conversion p c = .ok q) :
    q.IsComplete ↔ p.IsComplete := by
  simp only [conversion] at h
  split at h <;> cases h
  simp [Path.isComplete_link, NodeKind.isComplete, Path.isComplete_guard]

theorem chainEnd_isComplete {p q : Path} {a : Option Arithmetic} {c : Option Conversion}
    (h : chainEnd p a c = .ok q) : q.IsComplete ↔ p.IsComplete := by
  unfold chainEnd at h
  split at h
  · cases h
    rfl
  · cases a with
    | none =>
      cases c with
      | none =>
        cases h
        rfl
      | some c => exact conversion_isComplete h
    | some a =>
      obtain ⟨p', hp', h⟩ := bind_eq_ok.mp h
      rw [← arithmetic_isComplete hp']
      cases c with
      | none =>
        cases h
        rfl
      | some c => exact conversion_isComplete h

theorem Path.Sound.links_ne_nil {base : FlaggedTy} {p : Path} (h : p.Sound s base)
    (hd : p.done = true) : p.links ≠ [] := by
  cases h with
  | going _ hd' _ => simp [hd] at hd'
  | joined links _ _ _ _ _ => simp [links]
  | missing links _ _ _ => simp [links]

theorem Path.Sound.done_of_notFound {base : FlaggedTy} {p : Path} (h : p.Sound s base)
    (hn : p.notFound = true) : p.done = true := by
  cases h with
  | going _ _ hn' => simp [hn] at hn'
  | joined _ _ _ _ hd _ => exact hd
  | missing _ _ hd _ => exact hd

theorem isComplete_print {p : Path} {value : Option Fallback} {ty : FlaggedTy} {span : Span} :
    (p.link (.print value) ty span).IsComplete ↔ p.IsComplete := by
  simp [Path.isComplete_link, NodeKind.isComplete]

theorem finish_cases {p : Path} {span : Span} {default : Option Literal} {n : Node}
    (hn : ¬ p.notFound = true) (h : finish p span default = .ok n) :
    ∃ (value : Option Fallback) (q : Path),
      (p.done = true ∧ q = p ∨ q = p.link (.print value) p.cur span) ∧
      n = (value.elim q fun v => q.withDefault v (.plain p.cur.ty) span).close span := by
  simp only [finish, hn] at h
  obtain ⟨value, -, h⟩ := bind_eq_ok.mp h
  refine ⟨value, ?_⟩
  split at h
  next hd =>
    refine ⟨p, .inl ⟨hd, rfl⟩, ?_⟩
    cases value <;> cases h <;> rfl
  next =>
    split at h
    · refine ⟨_, .inr rfl, ?_⟩
      cases value <;> cases h <;> rfl
    · cases h

theorem finish_isComplete {base : FlaggedTy} {p : Path} {span : Span} {default : Option Literal}
    {n : Node} (hs : p.Sound s base) (h : finish p span default = .ok n) :
    n.IsComplete ↔ p.IsComplete := by
  by_cases hn : p.notFound = true
  · have hne := hs.links_ne_nil (hs.done_of_notFound hn)
    simp only [finish, hn, if_true] at h
    cases default with
    | none =>
      cases h
      exact Path.isComplete_close hne
    | some l =>
      cases h
      rw [Path.isComplete_close (by simp [withDefault_links, Path.link]),
        Path.isComplete_withDefault]
      simp [Path.isComplete_link, NodeKind.isComplete]
  · obtain ⟨value, q, hq, rfl⟩ := finish_cases hn h
    have hlast : q.links ≠ [] ∧ (q.IsComplete ↔ p.IsComplete) := by
      rcases hq with ⟨hd, rfl⟩ | rfl
      · exact ⟨hs.links_ne_nil hd, .rfl⟩
      · exact ⟨by simp [Path.link], isComplete_print⟩
    rw [← hlast.2]
    cases value with
    | none => exact Path.isComplete_close hlast.1
    | some v =>
      refine (Path.isComplete_close ?_).trans Path.isComplete_withDefault
      simpa [withDefault_links] using hlast.1

theorem finishAlternative_isComplete {base : FlaggedTy} {p : Path} {span : Span} {n : Node}
    {ty : Option FlaggedTy} (hs : p.Sound s base) (h : finishAlternative p span = .ok (n, ty)) :
    n.IsComplete ↔ p.IsComplete := by
  unfold finishAlternative at h
  split at h
  next hn =>
    cases h
    exact Path.isComplete_close (hs.links_ne_nil (hs.done_of_notFound hn))
  next =>
    split at h
    next hd =>
      cases h
      exact Path.isComplete_close (hs.links_ne_nil hd)
    next =>
      split at h <;> cases h
      exact (Path.isComplete_close (by simp [Path.link])).trans isComplete_print

theorem isComplete_literalNode (text : String) (span : Span) :
    (literalNode text span).IsComplete :=
  Node.isComplete_leaf.mpr rfl

theorem alternatives_restrict {base : FlaggedTy} {alternatives : List Chain}
    {default : Option Literal} {span : Span} (hne : ∀ c, alternatives = [c] → False)
    (h : Restricts (fun closed => ∀ c ∈ closed, c.1.IsComplete)
      (chains (s.under .strict) base alternatives)
      (chains (s.under .lenient) base alternatives)) :
    Restricts Node.IsComplete (expr (s.under .strict) base (.mk alternatives default span))
      (expr (s.under .lenient) base (.mk alternatives default span)) := by
  rw [expr.eq_2 _ base alternatives default span hne,
    expr.eq_2 _ base alternatives default span hne]
  refine h.andThen fun closed n _ hn => ?_
  cases default with
  | none =>
    cases hn
    simp [Node.isComplete_mk, NodeKind.isComplete]
  | some l =>
    obtain ⟨value, -, hn⟩ := bind_eq_ok.mp hn
    cases hn
    simp [Node.isComplete_mk, NodeKind.isComplete, Node.isComplete_leaf]

def closedAlternative (s : Scope ρ) (base : FlaggedTy) (c : Chain) :
    Except BuildError (Node × Option FlaggedTy) := do
  let (n, ty) ← finishAlternative (← chain s base c) c.span
  return (Node.mk .concatenation (.plain .string) c.span [n] [], ty)

theorem alternative_restricts {base : FlaggedTy} {c : Chain} {rest : List Chain}
    (hc : Restricts Path.IsComplete (chain (s.under .strict) base c)
      (chain (s.under .lenient) base c))
    (hrest : Restricts (fun closed => ∀ c ∈ closed, c.1.IsComplete)
      (chains (s.under .strict) base rest) (chains (s.under .lenient) base rest)) :
    Restricts (fun closed => ∀ c ∈ closed, c.1.IsComplete)
      (chains (s.under .strict) base (c :: rest))
      (chains (s.under .lenient) base (c :: rest)) := by
  have hfirst : Restricts (fun a => a.1.IsComplete) (closedAlternative (s.under .strict) base c)
      (closedAlternative (s.under .lenient) base c) := by
    refine hc.andThen fun p a hp ha => ?_
    obtain ⟨⟨n, ty⟩, hn, ha⟩ := bind_eq_ok.mp ha
    cases ha
    rw [← finishAlternative_isComplete (chain_sound c hp) hn]
    simp [Node.isComplete_mk, NodeKind.isComplete]
  simpa only [chains, closedAlternative, bind_assoc, pure_bind] using hfirst.cons hrest

mutual

theorem expr_restricts {base : FlaggedTy} (e : Expr) :
    Restricts Node.IsComplete (expr (s.under .strict) base e) (expr (s.under .lenient) base e) :=
  match e with
  | .mk [c] default span => by
    simp only [expr]
    exact (chain_restricts c).andThen fun p n hp hn => finish_isComplete (chain_sound c hp) hn
  | .mk [] default span => alternatives_restrict (by simp) (chains_restricts [])
  | .mk (c :: d :: rest) default span =>
    alternatives_restrict (by simp) (chains_restricts (c :: d :: rest))

theorem chains_restricts {base : FlaggedTy} (cs : List Chain) :
    Restricts (fun closed => ∀ c ∈ closed, c.1.IsComplete)
      (chains (s.under .strict) base cs) (chains (s.under .lenient) base cs) :=
  match cs with
  | [] => .ok (by simp)
  | c :: rest => alternative_restricts (chain_restricts c) (chains_restricts rest)

theorem chain_restricts {base : FlaggedTy} (c : Chain) :
    Restricts Path.IsComplete (chain (s.under .strict) base c)
      (chain (s.under .lenient) base c) :=
  match c with
  | .mk hd steps a c span => by
    simp only [chain]
    refine (head_restricts (Path.isComplete_start base) hd).bind (fun p _ hp => ?_)
      fun p q _ hq hc => ?_
    · exact (followAll_restricts hp steps).andThen fun q r _ hr => chainEnd_isComplete hr
    · -- No later step makes up for a name that leads nowhere.
      obtain ⟨r, hr, hq⟩ := bind_eq_ok.mp hq
      exact followAll_back hr ((chainEnd_isComplete hq).mp hc)

theorem followAll_restricts {p : Path} (hp : p.IsComplete) (steps : List Step) :
    Restricts Path.IsComplete (followAll (s.under .strict) p steps)
      (followAll (s.under .lenient) p steps) :=
  match steps with
  | [] => .ok hp
  | step :: rest => by
    unfold followAll
    split
    · exact .ok hp
    · exact (follow_restricts hp step).bind (fun q _ hq => followAll_restricts hq rest)
        fun q r _ hr hc => followAll_back hr hc

theorem follow_restricts {p : Path} (hp : p.IsComplete) (step : Step) :
    Restricts Path.IsComplete (follow (s.under .strict) p step)
      (follow (s.under .lenient) p step) :=
  match step with
  | .member id => navigate_restricts hp id .member
  | .call id => navigate_restricts hp id .method
  | .key id => navigate_restricts hp id .key
  | .join items span => by
    simp only [follow]
    refine (joined_restricts items).map fun children => ?_
    refine Path.isComplete_link.trans ?_
    simp [NodeKind.isComplete, Path.isComplete_guard, hp]

theorem joined_restricts {base : FlaggedTy} (items : List JoinItem) :
    Restricts (fun ns => ∀ n ∈ ns, n.IsComplete) (joined (s.under .strict) base items)
      (joined (s.under .lenient) base items) :=
  match items with
  | [] => .ok (by simp)
  | .text text span :: rest => by
    simp only [joined]
    refine (joined_restricts rest).map fun ns => ?_
    simp [isComplete_literalNode]
  | .expr e :: rest => by
    simp only [joined]
    exact (expr_restricts e).cons (joined_restricts rest)

end

theorem segments_restricts (segs : List Segment) :
    Restricts (fun ns => ∀ n ∈ ns, n.IsComplete) (segments (s.under .strict) segs)
      (segments (s.under .lenient) segs) := by
  induction segs with
  | nil => exact .ok (by simp)
  | cons seg rest ih =>
    cases seg with
    | text text span =>
      refine ih.map fun ns => ?_
      simp [isComplete_literalNode]
    | expr e => exact (expr_restricts e).cons ih

theorem ofTemplate_restricts (s : Scope ρ) (sink : String) (t : Template) :
    Restricts Node.IsComplete (ofTemplate (s.under .strict) sink t)
      (ofTemplate (s.under .lenient) sink t) := by
  simp only [ofTemplate, Scope.schema_under, Scope.input_under]
  cases s.schema.shape? s.input with
  | none => exact .error _ _
  | some shape =>
    refine (segments_restricts t.segments).map fun ns => ?_
    simp [Node.root, Node.isComplete_mk, NodeKind.isComplete]

/-- The strict policy accepts a template exactly when the lenient one makes a complete tree of it,
and makes the same tree; what the lenient policy refuses, the strict one does. -/
theorem strict_iff_complete (schema : Schema ρ) (functions : Functions ρ) (input sink : String)
    (t : Template) :
    (∀ tree, ofTemplate ⟨schema, functions, .strict, input⟩ sink t = .ok tree ↔
      ofTemplate ⟨schema, functions, .lenient, input⟩ sink t = .ok tree ∧ tree.IsComplete) ∧
    ∀ e, ofTemplate ⟨schema, functions, .lenient, input⟩ sink t = .error e →
      ∃ e', ofTemplate ⟨schema, functions, .strict, input⟩ sink t = .error e' := by
  have h := ofTemplate_restricts ⟨schema, functions, .strict, input⟩ sink t
  refine ⟨h, fun e he => ?_⟩
  cases hs : ofTemplate ⟨schema, functions, .strict, input⟩ sink t with
  | error e' => exact ⟨e', rfl⟩
  | ok tree =>
    have hl := ((h tree).mp hs).1
    cases he.symm.trans hl

end PathTemplate.Tree
