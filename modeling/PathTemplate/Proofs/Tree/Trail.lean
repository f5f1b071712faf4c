import PathTemplate.Proofs.Program.Soundness
import PathTemplate.Proofs.Tree.Resolved

/-!
Chains followed on the input itself. A trail has the values a chain gets to one after the other;
there are no guards on it, and an absent value is followed like any other. The path of nodes that the
chain becomes leads to the last of these values, or else to the other branch of a guard, and that only
if one of them is absent.
-/

namespace PathTemplate.Tree

variable {ρ : Type}

/-- A value that a chain has got to, with its declared type. -/
structure Stop (ρ : Type) where
  ty : FlaggedTy
  value : Value ρ

/-- All values that a chain has got to, with those before the last one last first. -/
structure Trail (ρ : Type) where
  last : Stop ρ
  before : List (Stop ρ)

def Scope.world (s : Scope ρ) (env : Run.Env ρ) : World ρ := ⟨s.schema, s.functions, env⟩

namespace Trail

def push (t : Trail ρ) (ty : FlaggedTy) (v : Value ρ) : Trail ρ := ⟨⟨ty, v⟩, t.last :: t.before⟩

def isPresent (t : Trail ρ) : Bool := (t.last :: t.before).all fun stop => !stop.value.isNull

/-- One step further; none when the name leads nowhere. -/
def step? (schema : Schema ρ) (t : Trail ρ) (name : String) (lookup : Lookup) :
    Option (Trail ρ) :=
  match stepFrom schema t.last.ty.ty name lookup with
  | .ok (a, ty) => some (t.push ty (access schema t.last.value a))
  | .error _ => none

def steps? (schema : Schema ρ) : List (Ident × Lookup) → Trail ρ → Option (Trail ρ)
  | [], t => some t
  | (id, lookup) :: rest, t => (t.step? schema id.name lookup).bind (steps? schema rest)

def head? (s : Scope ρ) (env : Run.Env ρ) (t : Trail ρ) : Head → Option (Trail ρ)
  | .name id => t.step? s.schema id.name .member
  | .key id => t.step? s.schema id.name .key
  | .call id args =>
    match s.functions.lookup? id.name args.length with
    | some f =>
      (arguments s (f.returns.ty == .unknown) args).toOption.map fun values =>
        t.push f.returns (f.body (values.map (s.world env).argument))
    | none => if args.isEmpty then t.step? s.schema id.name .method else none

def compute (t : Trail ρ) : Option Arithmetic → Trail ρ
  | some a =>
    let ty := promoted t.last.ty.ty a.operand
    t.push (.plain ty) (t.last.value.math a.op a.operand ty)
  | none => t

def convert (t : Trail ρ) : Option Conversion → Trail ρ
  | some c => t.push (.plain c.target) (t.last.value.cast c.target)
  | none => t

end Trail

/-- The trail of a chain without a join; none when some name in it leads nowhere. -/
def trail? (s : Scope ρ) (env : Run.Env ρ) (c : Chain) : Option (Trail ρ) :=
  (plainSteps? c.steps).bind fun steps =>
    ((Trail.head? s env ⟨⟨.plain (.record s.input), .record env.input⟩, []⟩ c.head).bind
      (Trail.steps? s.schema steps)).map fun t => (t.compute c.arithmetic).convert c.conversion

section Paths

variable {w : World ρ} {base : FlaggedTy} {v₀ v v' : Value ρ} {p : Path} {kind : NodeKind}
  {ty : FlaggedTy} {span : Span}

def orElse (otherwise : List Node) (n : Node) : Node :=
  if n.kind.isGuard then n.withOtherwise (n.otherwise ++ otherwise) else n

theorem orElse_of_not_guard {n : Node} (h : n.kind.isGuard = false) (otherwise : List Node) :
    orElse otherwise n = n := by
  simp [orElse, h]

/-- Whatever is put below the path starts from the value `v`. -/
def Path.Arrives (w : World ρ) (base : FlaggedTy) (v₀ : Value ρ) (p : Path) (v : Value ρ) : Prop :=
  ∀ {σ : Type} [Sink σ] (otherwise : List Node) (below : Node) (s : σ),
    walk w base v₀ (graft (p.links.map (orElse otherwise)) below) s = walk w p.cur v below s

def Path.FallsBack (w : World ρ) (base : FlaggedTy) (v₀ : Value ρ) (p : Path) : Prop :=
  ∀ {σ : Type} [Sink σ] (otherwise : List Node) (s r : σ),
    (∀ cur v, walkAll w cur v otherwise s = r) → ∀ below,
      walk w base v₀ (graft (p.links.map (orElse otherwise)) below) s = r

theorem Path.Arrives.link (h : p.Arrives w base v₀ v) (hk : kind.isGuard = false)
    (hc : w.computed? ty.ty v kind = some v') : (p.link kind ty span).Arrives w base v₀ v' := by
  intro σ _ otherwise below s
  have hnode : orElse otherwise (.mk kind ty span [] []) = .mk kind ty span [] [] :=
    orElse_of_not_guard (by exact hk) otherwise
  have hbelow := h otherwise (.mk kind ty span [below] []) s
  simp only [walk, hc, walkAll] at hbelow
  simp only [Path.link, List.map_cons, hnode]
  exact hbelow

theorem Path.Arrives.link_guard (h : p.Arrives w base v₀ v) (hk : kind.isGuard)
    (hv : v.isNull = false) : (p.link kind ty span).Arrives w base v₀ v := by
  intro σ _ otherwise below s
  have hbelow := h otherwise (.mk kind ty span [below] otherwise) s
  cases kind with
  | optionalGuard | nullableGuard =>
    simp only [walk, World.computed?, hv, Bool.false_eq_true, if_false, walkAll] at hbelow
    exact hbelow
  | _ => simp [NodeKind.isGuard] at hk

theorem Path.Arrives.fallsBack (h : p.Arrives w base v₀ v) (hk : kind.isGuard)
    (hv : v.isNull) : (p.link kind ty span).FallsBack w base v₀ := by
  intro σ _ otherwise s r hr below
  have hbelow := h otherwise (.mk kind ty span [below] otherwise) s
  cases kind with
  | optionalGuard | nullableGuard =>
    simp only [walk, World.computed?, hv, if_true, hr] at hbelow
    exact hbelow
  | _ => simp [NodeKind.isGuard] at hk

theorem Path.FallsBack.link (h : p.FallsBack w base v₀) (kind : NodeKind) (ty : FlaggedTy)
    (span : Span) : (p.link kind ty span).FallsBack w base v₀ := by
  intro σ _ otherwise s r hr below
  simp only [Path.link, List.map_cons, graft, List.foldl_cons]
  exact h otherwise s r hr _

end Paths

/-- What a path makes of a value that a chain has got to: its nodes arrive at the value, or one of
its guards found a value absent. Behind an absent value that no guard found all are absent. -/
inductive Path.Meets (isA : ρ → String → Prop) (w : World ρ) (base : FlaggedTy) (v₀ : Value ρ)
    (p : Path) (stop : Stop ρ) (present : Bool) : Prop where
  | arrives (arrives : p.Arrives w base v₀ stop.value) (holds : Holds isA stop.ty stop.value)
      (present_eq : present = !stop.value.isNull)
  | fallsBack (fallsBack : p.FallsBack w base v₀) (absent : present = false)

structure Path.Tracks (isA : ρ → String → Prop) (w : World ρ) (base : FlaggedTy) (v₀ : Value ρ)
    (p : Path) (stop : Stop ρ) (present : Bool) : Prop where
  done : p.done = false
  notFound : p.notFound = false
  cur : p.cur = stop.ty
  meets : p.Meets isA w base v₀ stop present

structure Path.Misses (w : World ρ) (base : FlaggedTy) (v₀ : Value ρ) (p : Path) : Prop where
  done : p.done = true
  notFound : p.notFound = true
  writes : ∀ {σ : Type} [Sink σ] (d : Fallback) (ty ty' : FlaggedTy) (span span' : Span) (s : σ),
    walk w base v₀ (graft (p.links.map (addDefault d ty span)) (.leaf (.default d) ty' span')) s =
      Run.fallback w.env d s

section Tracks

variable {isA : ρ → String → Prop} {w : World ρ} {base : FlaggedTy} {v₀ : Value ρ} {p : Path}
  {stop : Stop ρ} {present : Bool}

theorem Path.Tracks.hasShape (h : p.Tracks isA w base v₀ stop present) (hp : present = true) :
    HasShape isA stop.ty.ty stop.value := by
  cases h.meets with
  | arrives _ holds hpresent => exact holds.hasShape (by simpa [hpresent] using hp)
  | fallsBack _ absent => simp [hp] at absent

theorem Path.Tracks.link (h : p.Tracks isA w base v₀ stop present) {kind : NodeKind}
    {ty : FlaggedTy} {v : Value ρ} (hk : kind.isGuard = false)
    (hc : w.computed? ty.ty stop.value kind = some v)
    (hv : Holds isA stop.ty stop.value → Holds isA ty v ∧ (stop.value.isNull → v.isNull))
    (span : Span) :
    (p.link kind ty span).Tracks isA w base v₀ ⟨ty, v⟩ (!v.isNull && present) := by
  refine ⟨h.done, h.notFound, rfl, ?_⟩
  cases h.meets with
  | arrives arrives holds hp =>
    obtain ⟨hholds, hnull⟩ := hv holds
    refine .arrives (arrives.link hk hc) hholds ?_
    cases hn : v.isNull with
    | true => rfl
    | false =>
      have hprev : stop.value.isNull = false := by
        cases hprev : stop.value.isNull with
        | true => simp [hnull hprev] at hn
        | false => rfl
      simp [hp, hprev]
  | fallsBack falls hp => exact .fallsBack (falls.link kind ty span) (by simp [hp])

theorem Path.Tracks.link_guard (h : p.Tracks isA w base v₀ stop present) (kind : NodeKind)
    (ty : FlaggedTy) (hk : kind.isGuard) (hty : ty.ty = stop.ty.ty) (span : Span) :
    (p.link kind ty span).Tracks isA w base v₀ ⟨ty, stop.value⟩ present := by
  refine ⟨h.done, h.notFound, rfl, ?_⟩
  cases h.meets with
  | arrives arrives holds hp =>
    cases hn : stop.value.isNull with
    | true => exact .fallsBack (arrives.fallsBack hk hn) (by simp [hp, hn])
    | false =>
      refine .arrives (arrives.link_guard hk hn) (.inr ?_) hp
      rw [hty]
      exact holds.hasShape hn
  | fallsBack falls hp => exact .fallsBack (falls.link kind ty span) hp

theorem Path.Tracks.guard (h : p.Tracks isA w base v₀ stop present) (span : Span) :
    (p.guard span).Tracks isA w base v₀ ⟨stop.ty.present, stop.value⟩ present := by
  obtain ⟨⟨ty, optional, nullable⟩, v⟩ := stop
  obtain ⟨links, cur, done, notFound⟩ := p
  obtain rfl : cur = ⟨ty, optional, nullable⟩ := h.cur
  cases optional with
  | false =>
    cases nullable with
    | false => exact h
    | true => exact h.link_guard .nullableGuard (.plain ty) rfl rfl span
  | true =>
    have hopt := h.link_guard .optionalGuard ⟨ty, false, nullable⟩ rfl rfl span
    cases nullable with
    | false => exact hopt
    | true => exact hopt.link_guard .nullableGuard (.plain ty) rfl rfl span

theorem Path.Tracks.miss (h : p.Tracks isA w base v₀ stop present) (e : ResolveError) :
    (p.miss e).Misses w base v₀ := by
  refine ⟨rfl, rfl, fun {σ} _ d ty ty' span span' s => ?_⟩
  cases h.meets with
  | arrives arrives =>
    have hbelow := arrives [.leaf (.default d) ty span]
      (.mk (.notFound e.name) .unknown e.span [.leaf (.default d) ty' span'] []) s
    simp only [walk, World.computed?, walkAll, Node.leaf] at hbelow
    exact hbelow
  | fallsBack falls => exact falls [.leaf (.default d) ty span] s _ (fun _ _ => rfl) _

end Tracks

/-- What comes of a chain: a path along its trail or, where the policy allows it, one that leads
nowhere. -/
def Path.Ends (isA : ρ → String → Prop) (s : Scope ρ) (env : Run.Env ρ) (base : FlaggedTy)
    (v₀ : Value ρ) (p : Path) : Option (Trail ρ) → Prop
  | some t => p.Tracks isA (s.world env) base v₀ t.last t.isPresent
  | none => s.policy = .lenient ∧ p.Misses (s.world env) base v₀

section Chains

variable {types : RecordTypes ρ} {s : Scope ρ} {env : Run.Env ρ} {params : Params ρ}
  {base : FlaggedTy} {v₀ : Value ρ} {p q : Path} {t : Trail ρ}

theorem unresolved_ends {isA : ρ → String → Prop} {stop : Stop ρ} {present : Bool}
    {e : ResolveError} (h : p.Tracks isA (s.world env) base v₀ stop present)
    (hq : unresolved s p e = .ok q) : q.Ends isA s env base v₀ none := by
  unfold unresolved at hq
  split at hq
  · cases hq
  next hlenient =>
    cases hq
    exact ⟨hlenient, h.miss e⟩

theorem navigate_ends (hc : Conforming types s.schema s.functions params) {id : Ident}
    {lookup : Lookup}
    (h : p.Tracks (types.IsA s.schema) (s.world env) base v₀ t.last t.isPresent)
    (hq : navigate s p id lookup = .ok q) :
    q.Ends (types.IsA s.schema) s env base v₀ (t.step? s.schema id.name lookup) := by
  have hg := h.guard id.span
  have hty : (p.guard id.span).cur.ty = t.last.ty.ty := by rw [hg.cur]; rfl
  rcases navigate_eq_ok hq with ⟨a, ty, hs, rfl⟩ | ⟨m, e, hs, hq⟩
  · rw [hty] at hs
    have hnav := stepFrom_navigates hs
    obtain ⟨hu, hstr⟩ := hnav.ne_text
    simp only [Trail.step?, hs]
    refine hg.link (by cases a <;> rfl) (by cases a <;> rfl) (fun hholds => ?_) id.span
    exact ⟨.of_conforms (hc.access hnav (hholds.present rfl hu hstr)),
      fun hnull => access_null s.schema hnull a⟩
  · rw [hty] at hs
    simp only [Trail.step?, hs]
    exact unresolved_ends hg hq

theorem stepFrom_of_not_hasMethod {schema : Schema ρ} {ty : Ty} {name : String}
    (h : hasMethod schema ty name = false) : ∃ m, stepFrom schema ty name .method = .error m := by
  cases ty with
  | record owner =>
    cases hs : schema.shape? owner with
    | none => simp [stepFrom, hs]
    | some shape =>
      have hm : shape.method? name = none := by simpa [hasMethod, hs] using h
      simp [stepFrom, hs, memberOf?, hm]
  | _ => simp [stepFrom]

theorem head_ends (hc : Conforming types s.schema s.functions params)
    (hin : types.IsA s.schema env.input s.input) {hd : Head}
    (h : p.Tracks (types.IsA s.schema) (s.world env) base v₀ t.last t.isPresent)
    (hv : t.last.value.isNull = false) (hq : head s p hd = .ok q) :
    q.Ends (types.IsA s.schema) s env base v₀ (t.head? s env hd) := by
  cases hd with
  | name id => exact navigate_ends hc h hq
  | key id => exact navigate_ends hc h hq
  | call id args =>
    simp only [head] at hq
    split at hq
    next f hf =>
      simp only [bind_eq_ok, pure_eq_ok] at hq
      obtain ⟨values, hvalues, rfl⟩ := hq
      obtain ⟨hlen, hfit⟩ := arguments_fit hvalues
      rw [← hlen] at hf
      have hcall : (s.world env).call id.name values =
          f.body (values.map (s.world env).argument) := by
        simp [World.call, Scope.world, hf]
      simp only [Trail.head?, ← hlen, hf, hvalues, Except.toOption, Option.map_some]
      have hguard : (NodeKind.function id.name values).isGuard = false := rfl
      refine h.link hguard (congrArg some hcall) (fun _ => ⟨?_, fun hnull => ?_⟩) id.span
      · rw [← hcall]
        refine .of_conforms (hc.call hin hf rfl fun a ha => ?_)
        simpa using hfit a ha
      · simp [hv] at hnull
    -- A call of no function is one of a method of the input, if it has no arguments.
    next hnone =>
      simp only [Trail.head?, hnone]
      cases hargs : args.isEmpty with
      | false =>
        simp only [hargs, Bool.false_and, Bool.false_eq_true, if_false] at hq ⊢
        exact unresolved_ends h hq
      | true =>
        simp only [hargs, Bool.true_and, if_true] at hq ⊢
        split at hq
        · exact navigate_ends hc h hq
        next hno =>
          obtain ⟨m, hm⟩ := stepFrom_of_not_hasMethod (Bool.not_eq_true _ ▸ hno)
          rw [h.cur] at hm
          simp only [Trail.step?, hm]
          exact unresolved_ends h hq

theorem plainSteps?_cons {step : Step} {rest : List Step} {plain : List (Ident × Lookup)}
    (h : plainSteps? (step :: rest) = some plain) :
    ∃ id lookup more, plainSteps? rest = some more ∧ plain = (id, lookup) :: more ∧
      ∀ p, follow s p step = navigate s p id lookup := by
  cases step with
  | member id | call id | key id =>
    obtain ⟨more, hmore, rfl⟩ := Option.map_eq_some_iff.mp h
    exact ⟨id, _, more, hmore, rfl, fun _ => rfl⟩
  | join => cases h

theorem followAll_ends (hc : Conforming types s.schema s.functions params) {steps : List Step}
    {plain : List (Ident × Lookup)} (hplain : plainSteps? steps = some plain)
    {trail : Option (Trail ρ)} (h : p.Ends (types.IsA s.schema) s env base v₀ trail)
    (hq : followAll s p steps = .ok q) :
    q.Ends (types.IsA s.schema) s env base v₀ (trail.bind (Trail.steps? s.schema plain)) := by
  induction steps generalizing p plain trail with
  | nil =>
    cases hplain
    cases hq
    cases trail <;> exact h
  | cons step rest ih =>
    unfold followAll at hq
    cases trail with
    | none =>
      simp only [h.2.done, if_true, pure_eq_ok] at hq
      exact hq ▸ h
    | some t =>
      obtain ⟨id, lookup, more, hmore, rfl, hfollow⟩ := plainSteps?_cons (s := s) hplain
      simp only [Path.Tracks.done h, Bool.false_eq_true, if_false, bind_eq_ok, hfollow] at hq
      obtain ⟨p', hp', hq⟩ := hq
      exact ih hmore (navigate_ends hc h hp') hq

theorem arithmetic_tracks {isA : ρ → String → Prop} {a : Arithmetic}
    (h : p.Tracks isA (s.world env) base v₀ t.last t.isPresent) (hq : arithmetic p a = .ok q) :
    q.Tracks isA (s.world env) base v₀ (t.compute (some a)).last (t.compute (some a)).isPresent := by
  have hg := h.guard a.span
  obtain ⟨hn, ho, rfl⟩ := arithmetic_eq_ok hq
  have hty : (p.guard a.span).cur.ty = t.last.ty.ty := by rw [hg.cur]; rfl
  rw [hty] at hn ho ⊢
  obtain ⟨hu, hstr⟩ := Ty.ne_of_isNumeric hn
  refine hg.link rfl rfl (fun hholds => ?_) a.span
  have hshape := hholds.present rfl hu hstr
  refine ⟨.inr (hshape.math hn ho), fun hnull => ?_⟩
  simp [hshape.not_null hu] at hnull

theorem conversion_tracks {isA : ρ → String → Prop} {c : Conversion}
    (h : p.Tracks isA (s.world env) base v₀ t.last t.isPresent) (hq : conversion p c = .ok q) :
    q.Tracks isA (s.world env) base v₀ (t.convert (some c)).last (t.convert (some c)).isPresent := by
  have hg := h.guard c.span
  obtain ⟨ha, rfl⟩ := conversion_eq_ok hq
  have hty : (p.guard c.span).cur.ty = t.last.ty.ty := by rw [hg.cur]; rfl
  rw [hty] at ha
  refine hg.link rfl rfl (fun hholds => ?_) c.span
  cases hv : t.last.value.isNull with
  | false => exact ⟨.inr ((hholds.hasShape hv).cast hv ha), by simp⟩
  | true =>
    -- Null stays null, and only texts and what is unknown can be null here.
    have hnull : (t.last.value.cast c.target).isNull := by
      cases hvalue : t.last.value <;> simp_all [Value.isNull, Value.cast]
    exact ⟨.inl ⟨hnull, .inr (castAllowed_text (hholds.absent rfl hv) ha)⟩, fun _ => hnull⟩

theorem chainEnd_ends {isA : ρ → String → Prop} {trail : Option (Trail ρ)} {a : Option Arithmetic}
    {c : Option Conversion} (h : p.Ends isA s env base v₀ trail) (hq : chainEnd p a c = .ok q) :
    q.Ends isA s env base v₀ (trail.map fun t => (t.compute a).convert c) := by
  unfold chainEnd at hq
  cases trail with
  | none =>
    simp only [h.2.done, if_true, pure_eq_ok] at hq
    exact hq ▸ h
  | some t =>
    simp only [Path.Tracks.done h, Bool.false_eq_true, if_false] at hq
    cases a with
    | none =>
      cases c with
      | none =>
        cases hq
        exact h
      | some c => exact conversion_tracks h hq
    | some a =>
      obtain ⟨p', hp', hq⟩ := bind_eq_ok.mp hq
      have htracks := arithmetic_tracks h hp'
      cases c with
      | none =>
        cases hq
        exact htracks
      | some c => exact conversion_tracks htracks hq

theorem chain_ends (hc : Conforming types s.schema s.functions params)
    (hin : types.IsA s.schema env.input s.input) {c : Chain} {plain : List (Ident × Lookup)}
    (hplain : plainSteps? c.steps = some plain)
    (hp : chain s (.plain (.record s.input)) c = .ok p) :
    p.Ends (types.IsA s.schema) s env (.plain (.record s.input)) (.record env.input)
      (trail? s env c) := by
  obtain ⟨hd, steps, a, v, span⟩ := c
  simp only [chain, bind_eq_ok] at hp
  obtain ⟨p₁, h₁, p₂, h₂, h₃⟩ := hp
  have hstart : (Path.start (.plain (.record s.input))).Tracks (types.IsA s.schema) (s.world env)
      (.plain (.record s.input)) (.record env.input)
      ⟨.plain (.record s.input), .record env.input⟩ true :=
    ⟨rfl, rfl, rfl, .arrives (fun _ _ _ => rfl) (.inr ⟨env.input, rfl, hin⟩) rfl⟩
  have hhead := head_ends (t := ⟨⟨.plain (.record s.input), .record env.input⟩, []⟩) hc hin
    hstart rfl h₁
  have hend := chainEnd_ends (followAll_ends hc hplain hhead h₂) h₃
  rw [trail?, hplain]
  exact hend

end Chains

section Defaults

variable {isA : ρ → String → Prop} {w : World ρ} {base : FlaggedTy} {v₀ : Value ρ} {p : Path}
  {l : Literal} {span : Span} {n : Node}

theorem naturalDefault_of_constant (hl : ∀ name, l.kind ≠ .param name) :
    naturalDefault l = .constant (naturalConstant l.kind) := by
  unfold naturalDefault
  split
  next name hname => exact absurd hname (hl name)
  next => rfl

theorem defaultFor_of_constant (hl : ∀ name, l.kind ≠ .param name) {target : Ty} {value : Fallback}
    (h : defaultFor l target = .ok value) :
    ∃ k, constantFor? l.kind target = some k ∧ value = .constant k := by
  unfold defaultFor at h
  split at h
  next name hname => exact absurd hname (hl name)
  next =>
    split at h
    next k hk =>
      cases h
      exact ⟨k, hk, rfl⟩
    next => cases h

theorem finish_going (hd : p.done = false) (hf : p.notFound = false)
    (hn : finish p span (some l) = .ok n) : ∃ value, defaultFor l p.cur.ty = .ok value ∧
      n = ((p.link (.print (some value)) p.cur span).withDefault value (.plain p.cur.ty)
        span).close span := by
  simp only [finish, hf, hd, Bool.false_eq_true, if_false, bind_eq_ok] at hn
  obtain ⟨value, hvalue, hn⟩ := hn
  obtain ⟨d, hd, rfl⟩ : ∃ d, defaultFor l p.cur.ty = .ok d ∧ value = some d := by
    cases hd : defaultFor l p.cur.ty with
    | error e =>
      rw [Option.mapM_some, hd] at hvalue
      cases hvalue
    | ok d =>
      rw [Option.mapM_some, hd] at hvalue
      cases hvalue
      exact ⟨d, rfl, rfl⟩
  split at hn
  · cases hn
    exact ⟨d, hd, rfl⟩
  · cases hn

theorem Path.Misses.finish_writes {σ : Type} [Sink σ] (h : p.Misses w base v₀)
    (hl : ∀ name, l.kind ≠ .param name) (hn : finish p span (some l) = .ok n) (s : σ) :
    walk w base v₀ n s = Sink.accept s ((naturalConstant l.kind).value : Value ρ) := by
  simp only [finish, h.notFound, if_true, naturalDefault_of_constant hl] at hn
  cases hn
  exact h.writes _ _ _ _ _ s

/-- What is arrived at is printed if it is there. Where it is not, its type calls for a check, so
that the default is printed; behind a guard that failed the default is all there is. -/
theorem Path.Tracks.finish_writes {stop : Stop ρ} {present : Bool}
    (h : p.Tracks isA w base v₀ stop present) (hl : ∀ name, l.kind ≠ .param name)
    (hn : finish p span (some l) = .ok n) :
    ∃ k, constantFor? l.kind stop.ty.ty = some k ∧
      (present = true → HasShape isA stop.ty.ty stop.value) ∧
      ∀ {σ : Type} [Sink σ] (s : σ), walk w base v₀ n s =
        Sink.accept s (if present then stop.value else k.value) := by
  obtain ⟨value, hvalue, rfl⟩ := finish_going h.done h.notFound hn
  obtain ⟨k, hk, rfl⟩ := defaultFor_of_constant hl hvalue
  rw [h.cur] at hk
  refine ⟨k, hk, h.hasShape, fun s => ?_⟩
  cases h.meets with
  | arrives arrives holds hpresent =>
    subst hpresent
    refine (arrives [.leaf (.default (.constant k)) (.plain p.cur.ty) span]
      (.leaf (.print (some (.constant k))) p.cur span) s).trans ?_
    simp only [Node.leaf, walk, World.computed?, h.cur]
    cases hv : stop.value.isNull with
    | false => rfl
    | true =>
      have hcheck : checked stop.ty := by
        cases hflag : stop.ty.isFlagged with
        | true => simp [checked, hflag]
        | false =>
          rcases holds.absent hflag hv with hty | hty <;> simp [checked, hty, Ty.isPrimitive]
      simp [hcheck, Run.fallback]
  | fallsBack falls hpresent =>
    subst hpresent
    exact falls [.leaf (.default (.constant k)) (.plain p.cur.ty) span] s _ (fun _ _ => rfl) _

end Defaults

end PathTemplate.Tree
