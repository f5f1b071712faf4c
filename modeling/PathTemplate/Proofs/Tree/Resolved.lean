import PathTemplate.Proofs.Tree.Typing

namespace PathTemplate.Tree

variable {ρ : Type} {s : Scope ρ} {base : FlaggedTy}

theorem Shape.member?_kind {shape : Shape ρ} {kind : MemberKind} {name : String} {m : Member ρ}
    (h : shape.member? kind name = some m) : m.kind = kind := by
  have hp := List.find?_some h
  simp only [Bool.and_eq_true, beq_iff_eq] at hp
  exact hp.1

theorem memberOf?_access {schema : Schema ρ} {owner name : String} {lookup : Lookup}
    {shape : Shape ρ} {m : Member ρ} (hs : schema.shape? owner = some shape)
    (hm : memberOf? shape name lookup = some m) :
    Navigates schema (.record owner) (accessTo owner m name) m.ty := by
  have hfield : shape.field? name = some m → Navigates schema (.record owner)
      (accessTo owner m name) m.ty := by
    intro h
    have hk : m.kind = .field := Shape.member?_kind h
    simp only [accessTo, hk]
    exact .field (by simp [memberAt?, hs, h])
  have hmethod : shape.method? name = some m → Navigates schema (.record owner)
      (accessTo owner m name) m.ty := by
    intro h
    have hk : m.kind = .method := Shape.member?_kind h
    simp only [accessTo, hk]
    exact .method (by simp [memberAt?, hs, h])
  have hboth : (shape.field? name).or (shape.method? name) = some m →
      Navigates schema (.record owner) (accessTo owner m name) m.ty := by
    intro h
    rcases Option.or_eq_some_iff.mp h with h | ⟨_, h⟩
    · exact hfield h
    · exact hmethod h
  cases lookup with
  | member => exact hboth hm
  | method => exact hmethod hm
  | key => exact hboth hm

theorem stepFrom_navigates {schema : Schema ρ} {ty : Ty} {name : String} {lookup : Lookup}
    {a : Access} {next : FlaggedTy} (h : stepFrom schema ty name lookup = .ok (a, next)) :
    Navigates schema ty a next := by
  cases ty with
  | record owner =>
    simp only [stepFrom] at h
    cases hs : schema.shape? owner with
    | none => simp [hs] at h
    | some shape =>
      cases hm : memberOf? shape name lookup with
      | none => simp [hs, hm] at h
      | some m =>
        simp only [hs, hm, Except.ok.injEq, Prod.mk.injEq] at h
        obtain ⟨rfl, rfl⟩ := h
        exact memberOf?_access hs hm
  | map value =>
    simp only [stepFrom] at h
    split at h
    · cases h
    · simp only [Except.ok.injEq, Prod.mk.injEq] at h
      obtain ⟨rfl, rfl⟩ := h
      exact .key
  | _ => simp [stepFrom] at h

theorem accessPath_reaches {schema : Schema ρ} {ty last : Ty} {steps : List (Ident × Lookup)}
    {accesses : List Access} (h : accessPath schema ty steps = .ok (accesses, last)) :
    Reaches schema ty accesses last := by
  induction steps generalizing ty accesses with
  | nil =>
    simp only [accessPath, Except.ok.injEq, Prod.mk.injEq] at h
    obtain ⟨rfl, rfl⟩ := h
    exact .here
  | cons step rest ih =>
    obtain ⟨id, lookup⟩ := step
    simp only [accessPath] at h
    split at h
    next a next hs =>
      simp only [bind_eq_ok, pure_eq_ok, Prod.mk.injEq, Prod.exists] at h
      obtain ⟨accesses', last', hr, rfl, rfl⟩ := h
      exact .step (stepFrom_navigates hs) (ih hr)
    all_goals cases h

theorem argument_fits {a : Arg} {value : Argument} {ty : Ty}
    (h : argument s a = .ok (value, ty)) (handedOn : Prop) (hp : handedOn → ty.isPrintable) :
    ArgumentFits s handedOn value := by
  cases a with
  | literal l =>
    simp only [argument] at h
    split at h
    · cases h
    · simp only [Except.ok.injEq, Prod.mk.injEq] at h
      obtain ⟨rfl, -⟩ := h
      trivial
  | path c =>
    simp only [argument] at h
    split at h
    · cases h
    · split at h
      next hr =>
        simp only [Except.ok.injEq, Prod.mk.injEq] at h
        obtain ⟨rfl, rfl⟩ := h
        exact ⟨_, accessPath_reaches hr, hp⟩
      next =>
        split at h
        · cases h
        · simp only [Except.ok.injEq, Prod.mk.injEq] at h
          obtain ⟨rfl, -⟩ := h
          trivial

theorem arguments_fit {handsOn : Bool} {args : List Arg} {values : List Argument}
    (h : arguments s handsOn args = .ok values) :
    values.length = args.length ∧ ∀ a ∈ values, ArgumentFits s handsOn a := by
  induction args generalizing values with
  | nil =>
    simp only [arguments, Except.ok.injEq] at h
    subst h
    simp
  | cons a rest ih =>
    simp only [arguments, bind_eq_ok, Prod.exists] at h
    obtain ⟨value, ty, ha, h⟩ := h
    split at h
    · cases h
    next hp =>
      simp only [bind_eq_ok, pure_eq_ok] at h
      obtain ⟨more, hm, rfl⟩ := h
      obtain ⟨hlen, hall⟩ := ih hm
      have hfit : ArgumentFits s handsOn value := by
        refine argument_fits ha _ fun ht => ?_
        simpa [ht] using hp
      refine ⟨by simp [hlen], ?_⟩
      simpa using ⟨hfit, hall⟩

/-- A path that is still going, one that ended in a join, or one that ended in a name that leads
nowhere. -/
inductive Path.Sound (s : Scope ρ) (base : FlaggedTy) (p : Path) : Prop where
  | going (leads : Leads s base p.links p.cur) (hd : p.done = false) (hn : p.notFound = false)
  | joined {last : Node} {before : List Node} {cur : FlaggedTy} (links : p.links = last :: before)
      (leads : Leads s base before cur) (typed : Typed s cur last)
      (hk : last.kind = .concatenation) (hd : p.done = true) (hn : p.notFound = false)
  | missing {name : String} {span : Span} {before : List Node} {cur : FlaggedTy}
      (links : p.links = .leaf (.notFound name) .unknown span :: before)
      (leads : Leads s base before cur) (hd : p.done = true) (hn : p.notFound = true)

/-- A path that may go on. -/
structure Path.Going (s : Scope ρ) (base : FlaggedTy) (p : Path) : Prop where
  leads : Leads s base p.links p.cur
  done : p.done = false
  notFound : p.notFound = false

theorem Path.Going.sound {p : Path} (h : p.Going s base) : p.Sound s base :=
  .going h.leads h.done h.notFound

theorem Path.Sound.going_of_not_done {p : Path} (h : p.Sound s base) (hd : p.done = false) :
    p.Going s base := by
  cases h with
  | going leads hd hn => exact ⟨leads, hd, hn⟩
  | joined _ _ _ _ hd' _ => simp [hd] at hd'
  | missing _ _ hd' _ => simp [hd] at hd'

theorem Path.Going.start (s : Scope ρ) (base : FlaggedTy) : (Path.start base).Going s base :=
  ⟨.start, rfl, rfl⟩

theorem Path.Going.link {p : Path} (h : p.Going s base) {kind : NodeKind} {ty : FlaggedTy}
    {span : Span} (hp : kind.passes p.cur ty = ty)
    (hf : ∀ below, Typed s ty below → Fits s p.cur ty [below] [] kind) :
    (p.link kind ty span).Going s base :=
  ⟨h.leads.push hp hf, h.done, h.notFound⟩

theorem Path.guard_cur_ty (p : Path) (span : Span) : (p.guard span).cur.ty = p.cur.ty := by
  unfold Path.guard
  simp only
  split <;> split <;> rfl

theorem Path.Going.guard {p : Path} (h : p.Going s base) (span : Span) :
    (p.guard span).Going s base ∧ (p.guard span).cur = .plain p.cur.ty := by
  obtain ⟨links, ⟨ty, optional, nullable⟩, done, notFound⟩ := p
  have hopt : ∀ nullable, (Path.mk links ⟨ty, true, nullable⟩ done notFound).Going s base →
      ((Path.mk links ⟨ty, true, nullable⟩ done notFound).link .optionalGuard
        ⟨ty, false, nullable⟩ span).Going s base := by
    intro nullable h
    exact h.link rfl fun below _ => ⟨rfl, rfl, by simp, by simp⟩
  have hnull : ∀ p : Path, p.cur = ⟨ty, false, true⟩ → p.Going s base →
      (p.link .nullableGuard (.plain ty) span).Going s base := by
    intro p hc h
    refine h.link rfl fun below _ => ?_
    simp [Fits, hc, FlaggedTy.present]
  cases optional with
  | false =>
    cases nullable with
    | false => exact ⟨h, rfl⟩
    | true => exact ⟨hnull _ rfl h, rfl⟩
  | true =>
    cases nullable with
    | false => exact ⟨hopt false h, rfl⟩
    | true => exact ⟨hnull _ rfl (hopt true h), rfl⟩

theorem Path.Going.miss {p : Path} (h : p.Going s base) (e : ResolveError) :
    (p.miss e).Sound s base :=
  .missing rfl h.leads rfl rfl

theorem unresolved_sound {p q : Path} {e : ResolveError} (h : p.Going s base)
    (hq : unresolved s p e = .ok q) : q.Sound s base := by
  unfold unresolved at hq
  split at hq
  · cases hq
  · cases hq
    exact h.miss e

/-- A step that is taken, or a name that leads nowhere where the policy allows it. -/
theorem navigate_eq_ok {p q : Path} {id : Ident} {lookup : Lookup}
    (h : navigate s p id lookup = .ok q) :
    (∃ a ty, stepFrom s.schema (p.guard id.span).cur.ty id.name lookup = .ok (a, ty) ∧
      q = (p.guard id.span).link (nodeOf a) ty id.span) ∨
    ∃ m e, stepFrom s.schema (p.guard id.span).cur.ty id.name lookup = .error m ∧
      unresolved s (p.guard id.span) e = .ok q := by
  simp only [navigate] at h
  split at h
  next a ty hs =>
    cases h
    exact .inl ⟨a, ty, hs, rfl⟩
  next hs => exact .inr ⟨_, _, hs, h⟩
  next hs => exact .inr ⟨_, _, hs, h⟩
  next hs => exact .inr ⟨_, _, hs, h⟩

theorem navigate_sound {p q : Path} {id : Ident} {lookup : Lookup} (h : p.Going s base)
    (hq : navigate s p id lookup = .ok q) : q.Sound s base := by
  obtain ⟨hg, hcur⟩ := h.guard id.span
  rcases navigate_eq_ok hq with ⟨a, ty, hs, rfl⟩ | ⟨m, e, -, hq⟩
  · have hnav := stepFrom_navigates hs
    have hflag : (p.guard id.span).cur.isFlagged = false := by rw [hcur]; rfl
    refine (hg.link ?_ fun below _ => ?_).sound
    · cases a <;> rfl
    · cases a <;> exact ⟨hflag, hnav, by simp, rfl⟩
  · exact unresolved_sound hg hq

theorem head_sound {p q : Path} {hd : Head} (h : p.Going s base) (hq : head s p hd = .ok q) :
    q.Sound s base := by
  cases hd with
  | name id => exact navigate_sound h hq
  | key id => exact navigate_sound h hq
  | call id args =>
    simp only [head] at hq
    split at hq
    next f hf =>
      simp only [bind_eq_ok, pure_eq_ok] at hq
      obtain ⟨values, hv, rfl⟩ := hq
      obtain ⟨hlen, hfit⟩ := arguments_fit hv
      refine (h.link rfl fun below _ => ?_).sound
      refine ⟨⟨f, by rw [hlen]; exact hf, rfl⟩, ?_, by simp, rfl⟩
      simpa using hfit
    next =>
      split at hq
      · exact navigate_sound h hq
      · exact unresolved_sound h hq

theorem arithmetic_eq_ok {p q : Path} {a : Arithmetic} (h : arithmetic p a = .ok q) :
    (p.guard a.span).cur.ty.isNumeric ∧
      OperandFits (promoted (p.guard a.span).cur.ty a.operand) a.op a.operand ∧
      q = (p.guard a.span).link (.math a.op a.operand)
        (.plain (promoted (p.guard a.span).cur.ty a.operand)) a.span := by
  simp only [arithmetic] at h
  split at h
  · cases h
  next hn =>
    have hnum : (p.guard a.span).cur.ty.isNumeric = true := by simpa using hn
    split at h
    next x hx =>
      cases h
      exact ⟨hnum, by simp [OperandFits, hx], rfl⟩
    next n hx =>
      split at h
      · cases h
      next hrange =>
        split at h
        · cases h
        next hzero =>
          cases h
          refine ⟨hnum, ?_, rfl⟩
          rw [hx] at hrange hzero ⊢
          refine ⟨fun ht => ?_, fun hi hop hz => ?_⟩
          · exact Classical.not_not.mp fun hr => hrange ⟨ht, hr⟩
          · subst hz
            exact hzero (by rcases hop with hop | hop <;> simp [hi, hop])

theorem arithmetic_going {p q : Path} {a : Arithmetic} (h : p.Going s base)
    (hq : arithmetic p a = .ok q) : q.Going s base := by
  obtain ⟨hg, hcur⟩ := h.guard a.span
  obtain ⟨hn, ho, rfl⟩ := arithmetic_eq_ok hq
  refine hg.link rfl fun below _ => ⟨?_, hn, rfl, ho, by simp, rfl⟩
  rw [hcur]
  rfl

theorem conversion_eq_ok {p q : Path} {c : Conversion} (h : conversion p c = .ok q) :
    castAllowed (p.guard c.span).cur.ty c.target ∧
      q = (p.guard c.span).link (.cast c.target) (.plain c.target) c.span := by
  simp only [conversion] at h
  split at h
  next ha =>
    cases h
    exact ⟨ha, rfl⟩
  next => cases h

theorem conversion_going {p q : Path} {c : Conversion} (h : p.Going s base)
    (hq : conversion p c = .ok q) : q.Going s base := by
  obtain ⟨hg, hcur⟩ := h.guard c.span
  obtain ⟨ha, rfl⟩ := conversion_eq_ok hq
  refine hg.link rfl fun below _ => ⟨?_, ha, rfl, by simp, rfl⟩
  rw [hcur]
  rfl

theorem chainEnd_sound {p q : Path} {a : Option Arithmetic} {c : Option Conversion}
    (h : p.Sound s base) (hq : chainEnd p a c = .ok q) : q.Sound s base := by
  unfold chainEnd at hq
  cases hd : p.done with
  | true =>
    simp only [hd, if_true, pure_eq_ok] at hq
    exact hq ▸ h
  | false =>
    have hgo := h.going_of_not_done hd
    simp only [hd, Bool.false_eq_true, if_false] at hq
    cases a with
    | none =>
      cases c with
      | none => cases hq; exact hgo.sound
      | some c => exact (conversion_going hgo hq).sound
    | some a =>
      obtain ⟨p', hp', hq⟩ := bind_eq_ok.mp hq
      have hgo' := arithmetic_going hgo hp'
      cases c with
      | none => cases hq; exact hgo'.sound
      | some c => exact (conversion_going hgo' hq).sound

theorem withDefault_links (p : Path) (value : Fallback) (ty : FlaggedTy) (span : Span) :
    (p.withDefault value ty span).links = p.links.map (addDefault value ty span) := rfl

theorem addDefault_of_not_guard {n : Node} (h : n.kind.isGuard = false) (value : Fallback)
    (ty : FlaggedTy) (span : Span) : addDefault value ty span n = n := by
  simp [addDefault, h]

/-- A path closes to a typed tree, with or without a default for its guards. -/
structure Path.Closes (s : Scope ρ) (base : FlaggedTy) (p : Path) (span : Span) : Prop where
  plain : Typed s base (p.close span)
  withDefault : ∀ (value : Fallback) (ty : FlaggedTy) (place : Span),
    Typed s base ((p.withDefault value ty place).close span)

theorem Path.closes_of_last {p : Path} {last : Node} {before : List Node} {cur : FlaggedTy}
    (links : p.links = last :: before) (leads : Leads s base before cur)
    (typed : Typed s cur last) (hk : last.kind.isGuard = false) (span : Span) :
    p.Closes s base span where
  plain := by
    rw [p.close_cons span links]
    exact leads.graft typed
  withDefault value ty place := by
    have hlinks : (p.withDefault value ty place).links =
        last :: before.map (addDefault value ty place) := by
      rw [withDefault_links, links, List.map_cons, addDefault_of_not_guard hk]
    rw [Path.close_cons _ span hlinks]
    exact (leads.addDefault value ty place).graft typed

theorem Path.Going.print {p : Path} (h : p.Going s base) (hp : p.cur.ty.isPrintable)
    (value : Option Fallback) (span : Span) :
    (p.link (.print value) p.cur span).Closes s base span :=
  Path.closes_of_last rfl h.leads (.print hp) rfl span

theorem Path.closes_missing {p : Path} {name : String} {at' span dspan : Span}
    {before : List Node} {cur dty : FlaggedTy} {value : Fallback}
    (links : p.links = .leaf (.notFound name) .unknown at' :: before)
    (leads : Leads s base before cur) :
    (p.link (.default value) dty dspan).Closes s base span := by
  have htyped : Typed s cur
      (.mk (.notFound name) .unknown at' [.leaf (.default value) dty dspan] []) := by
    refine .mk ⟨by simp, by simp [Node.leaf, Node.kind], rfl⟩ ?_ (by simp)
    simpa using Typed.constant value dty dspan
  constructor
  · have hlinks : (p.link (.default value) dty dspan).links =
        .leaf (.default value) dty dspan :: p.links := rfl
    rw [Path.close_cons _ span hlinks, links]
    exact leads.graft htyped
  · intro d ty place
    have hlinks : ((p.link (.default value) dty dspan).withDefault d ty place).links =
        .leaf (.default value) dty dspan :: p.links.map (addDefault d ty place) := rfl
    rw [Path.close_cons _ span hlinks, links]
    exact (leads.addDefault d ty place).graft htyped

theorem finish_typed {p : Path} {span : Span} {default : Option Literal} {n : Node}
    (h : p.Sound s base) (hn : finish p span default = .ok n) : Typed s base n := by
  cases h with
  | going leads hd hnf =>
    have hgo : p.Going s base := ⟨leads, hd, hnf⟩
    simp only [finish, hnf, hd, Bool.false_eq_true, if_false, bind_eq_ok] at hn
    obtain ⟨value, -, hn⟩ := hn
    cases hp : p.cur.ty.isPrintable with
    | true =>
      have hclose := hgo.print hp value span
      simp only [hp, if_true] at hn
      -- The default, if there is one, goes to the guards as well.
      cases value with
      | none => cases hn; exact hclose.plain
      | some v => cases hn; exact hclose.withDefault v _ span
    | false =>
      simp only [hp, Bool.false_eq_true, if_false] at hn
      cases hn
  | joined links leads typed hk hd hnf =>
    simp only [finish, hnf, hd, Bool.false_eq_true, if_false, if_true, bind_eq_ok] at hn
    obtain ⟨value, -, q, hq, hn⟩ := hn
    cases hq
    have hclose := Path.closes_of_last links leads typed (by rw [hk]; rfl) span
    cases value with
    | none => cases hn; exact hclose.plain
    | some v => cases hn; exact hclose.withDefault v _ span
  | @missing name at' before cur links leads hd hnf =>
    simp only [finish, hnf, if_true] at hn
    cases default with
    | none =>
      cases hn
      exact (Path.closes_of_last links leads (.missing _ _ _) rfl span).plain
    | some l =>
      cases hn
      exact (Path.closes_missing links leads).withDefault _ _ _

theorem finishAlternative_typed {p : Path} {span : Span} {n : Node} {ty : Option FlaggedTy}
    (h : p.Sound s base) (hn : finishAlternative p span = .ok (n, ty)) : Typed s base n := by
  cases h with
  | going leads hd hnf =>
    have hgo : p.Going s base := ⟨leads, hd, hnf⟩
    simp only [finishAlternative, hnf, hd, Bool.false_eq_true, if_false] at hn
    split at hn
    next hp =>
      cases hn
      exact (hgo.print hp none span).plain
    next => cases hn
  | joined links leads typed hk hd hnf =>
    simp only [finishAlternative, hnf, hd, Bool.false_eq_true, if_false, if_true] at hn
    cases hn
    exact (Path.closes_of_last links leads typed (by rw [hk]; rfl) span).plain
  | missing links leads hd hnf =>
    simp only [finishAlternative, hnf, if_true] at hn
    cases hn
    exact (Path.closes_of_last links leads (.missing _ _ _) rfl span).plain

theorem orFallback_typed (hb : base.isFlagged = false) {children otherwise : List Node}
    {span : Span} (hc : ∀ c ∈ children, c.kind = .concatenation ∧ Typed s base c)
    (ho : ∀ c ∈ otherwise, ∃ value ty span, c = .leaf (.default value) ty span) :
    Typed s base (.mk .orFallback (.plain .string) span children otherwise) := by
  refine .mk ⟨hb, fun c h => (hc c h).1, fun c h => ?_⟩ (fun c h => (hc c h).2) fun c h => ?_
  · obtain ⟨value, ty, span, rfl⟩ := ho c h
    rfl
  · obtain ⟨value, ty, span, rfl⟩ := ho c h
    exact .constant value ty span

theorem expr_of_alternatives {alternatives : List Chain} {default : Option Literal} {span : Span}
    {n : Node} (hne : ∀ c, alternatives = [c] → False)
    (h : expr s base (.mk alternatives default span) = .ok n) :
    ∃ closed otherwise, chains s base alternatives = .ok closed ∧
      (∀ c ∈ otherwise, ∃ value ty span, c = Node.leaf (.default value) ty span) ∧
      n = .mk .orFallback (.plain .string) span (closed.map (·.1)) otherwise := by
  simp only [expr.eq_2 s base alternatives default span hne, bind_eq_ok] at h
  obtain ⟨closed, hc, h⟩ := h
  cases default with
  | none =>
    cases h
    exact ⟨closed, [], hc, by simp, rfl⟩
  | some l =>
    obtain ⟨value, -, h⟩ := bind_eq_ok.mp h
    cases h
    refine ⟨closed, _, hc, fun c hmem => ?_, rfl⟩
    exact ⟨value, _, l.span, List.mem_singleton.mp hmem⟩

mutual

theorem expr_typed {base : FlaggedTy} (hb : base.isFlagged = false) :
    (e : Expr) → {n : Node} → expr s base e = .ok n → Typed s base n
  | .mk [c] default span, n, h => by
    simp only [expr, bind_eq_ok] at h
    obtain ⟨p, hp, hn⟩ := h
    exact finish_typed (chain_sound c hp) hn
  | .mk [] default span, n, h => by
    obtain ⟨closed, otherwise, hc, ho, rfl⟩ := expr_of_alternatives (by simp) h
    exact orFallback_typed hb (chains_typed hb [] hc) ho
  | .mk (c :: d :: rest) default span, n, h => by
    obtain ⟨closed, otherwise, hc, ho, rfl⟩ := expr_of_alternatives (by simp) h
    exact orFallback_typed hb (chains_typed hb (c :: d :: rest) hc) ho

theorem chains_typed {base : FlaggedTy} (hb : base.isFlagged = false) :
    (cs : List Chain) → {closed : List (Node × Option FlaggedTy)} →
      chains s base cs = .ok closed →
      ∀ c ∈ closed.map (·.1), c.kind = .concatenation ∧ Typed s base c
  | [], closed, h => by
    cases h
    simp
  | c :: rest, closed, h => by
    simp only [chains, bind_eq_ok, pure_eq_ok, Prod.exists] at h
    obtain ⟨p, hp, n, ty, hn, more, hm, rfl⟩ := h
    have hfirst := finishAlternative_typed (chain_sound c hp) hn
    have hrest := chains_typed hb rest hm
    simp only [List.map_cons, List.forall_mem_cons]
    refine ⟨⟨rfl, .mk ⟨hb, rfl⟩ ?_ (by simp)⟩, hrest⟩
    intro c hc
    rw [List.mem_singleton.mp hc]
    exact hfirst

theorem chain_sound {base : FlaggedTy} :
    (c : Chain) → {p : Path} → chain s base c = .ok p → p.Sound s base
  | .mk hd steps a c span, p, h => by
    simp only [chain, bind_eq_ok] at h
    obtain ⟨p₁, h₁, p₂, h₂, h₃⟩ := h
    have hs₁ := head_sound (Path.Going.start s base) h₁
    exact chainEnd_sound (followAll_sound hs₁ steps h₂) h₃

theorem followAll_sound {base : FlaggedTy} {p : Path} (hp : p.Sound s base) :
    (steps : List Step) → {q : Path} → followAll s p steps = .ok q → q.Sound s base
  | [], q, h => by
    cases h
    exact hp
  | step :: rest, q, h => by
    unfold followAll at h
    cases hd : p.done with
    | true =>
      simp only [hd, if_true, pure_eq_ok] at h
      exact h ▸ hp
    | false =>
      simp only [hd, Bool.false_eq_true, if_false, bind_eq_ok] at h
      obtain ⟨p', hp', h⟩ := h
      exact followAll_sound (follow_sound (hp.going_of_not_done hd) step hp') rest h

theorem follow_sound {base : FlaggedTy} {p : Path} (hp : p.Going s base) :
    (step : Step) → {q : Path} → follow s p step = .ok q → q.Sound s base
  | .member id, q, h => navigate_sound hp h
  | .call id, q, h => navigate_sound hp h
  | .key id, q, h => navigate_sound hp h
  | .join items span, q, h => by
    obtain ⟨hg, hcur⟩ := hp.guard span
    have hflag : (p.guard span).cur.isFlagged = false := by rw [hcur]; rfl
    simp only [follow, bind_eq_ok, pure_eq_ok] at h
    obtain ⟨children, hc, rfl⟩ := h
    have htyped := joined_typed hflag items hc
    exact .joined rfl hg.leads (.mk ⟨hflag, rfl⟩ htyped (by simp)) rfl rfl hg.notFound

theorem joined_typed {base : FlaggedTy} (hb : base.isFlagged = false) :
    (items : List JoinItem) → {ns : List Node} → joined s base items = .ok ns →
      ∀ c ∈ ns, Typed s base c
  | [], ns, h => by
    cases h
    simp
  | .text text span :: rest, ns, h => by
    simp only [joined, bind_eq_ok, pure_eq_ok] at h
    obtain ⟨more, hm, rfl⟩ := h
    simpa using ⟨Typed.literal text span, joined_typed hb rest hm⟩
  | .expr e :: rest, ns, h => by
    simp only [joined, bind_eq_ok, pure_eq_ok] at h
    obtain ⟨n, hn, more, hm, rfl⟩ := h
    simpa using ⟨expr_typed hb e hn, joined_typed hb rest hm⟩

end

theorem segments_typed {segs : List Segment} {ns : List Node} (h : segments s segs = .ok ns) :
    ∀ c ∈ ns, Typed s (.plain (.record s.input)) c := by
  induction segs generalizing ns with
  | nil =>
    cases h
    simp
  | cons seg rest ih =>
    cases seg with
    | text text span =>
      simp only [segments, bind_eq_ok, pure_eq_ok] at h
      obtain ⟨more, hm, rfl⟩ := h
      simpa using ⟨Typed.literal text span, ih hm⟩
    | expr e =>
      simp only [segments, bind_eq_ok, pure_eq_ok] at h
      obtain ⟨n, hn, more, hm, rfl⟩ := h
      simpa using ⟨expr_typed rfl e hn, ih hm⟩

/-- The tree of a template: a root over typed nodes that start from the input. -/
theorem ofTemplate_typed {sink : String} {t : Template} {n : Node}
    (h : ofTemplate s sink t = .ok n) :
    (s.schema.shape? s.input).isSome ∧ ∃ children, n = .root s.input sink children ∧
      ∀ c ∈ children, Typed s (.plain (.record s.input)) c := by
  unfold ofTemplate at h
  split at h
  · cases h
  next shape hs =>
    simp only [bind_eq_ok, pure_eq_ok] at h
    obtain ⟨children, hc, rfl⟩ := h
    exact ⟨by simp [hs], children, rfl, segments_typed hc⟩

end PathTemplate.Tree
