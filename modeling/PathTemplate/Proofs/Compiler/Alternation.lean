import Mathlib.Data.List.Forall2
import PathTemplate.Proofs.Compiler.Rendering
import PathTemplate.Proofs.Template.RoundTrip
import PathTemplate.Proofs.Tree.Places

namespace PathTemplate

open PathTemplate.Tree PathTemplate.Routine

variable {ρ σ : Type}

namespace Tree

section Walks

variable [Sink σ] [LawfulSink σ] (w : World ρ) (cur : FlaggedTy) (v : Value ρ)

theorem firstWritten_eq_find? (ns : List Node) (inner : σ) :
    firstWritten w cur v ns inner =
      (ns.find? fun n => !Sink.isEmpty (walk w cur v n (Sink.fresh inner))).map
        fun n => walk w cur v n (Sink.fresh inner) := by
  induction ns generalizing inner with
  | nil => rfl
  | cons n ns ih =>
    -- What the attempt leaves behind has the settings of the sink it started in.
    have hsettings : Sink.fresh (walk w cur v n (Sink.fresh inner)) = Sink.fresh inner := by
      rw [(walk_appends w cur v n).settings, LawfulSink.fresh_fresh]
    simp only [firstWritten, LawfulSink.reset_eq_fresh, ih, hsettings, List.find?_cons]
    cases Sink.isEmpty (walk w cur v n (Sink.fresh inner)) <;> rfl

theorem walk_orFallback (ty : FlaggedTy) (span : Span) (ns otherwise : List Node) (s : σ) :
    walk w cur v (.mk .orFallback ty span ns otherwise) s =
      match ns.find? fun n => !Sink.isEmpty (walk w cur v n (Sink.fresh s)) with
      | some n => walk w cur v n s
      | none => walkAll w cur v otherwise s := by
  simp only [walk, World.computed?, firstWritten_eq_find?, LawfulSink.fresh_fresh]
  cases ns.find? fun n => !Sink.isEmpty (walk w cur v n (Sink.fresh s)) with
  | none => rfl
  | some n => exact ((walk_appends w cur v n).apart s).symm

end Walks

variable {s : Scope ρ} {base : FlaggedTy}

def terminal? (s : Scope ρ) (base : FlaggedTy) (c : Chain) : Option FlaggedTy :=
  (chain s base c).toOption.bind fun p => if p.notFound then none else some p.cur

/-- The default of alternatives in the type of the first of them that leads somewhere. -/
def declaredDefault (s : Scope ρ) (cs : List Chain) (l : Literal) : Except BuildError Fallback :=
  match cs.findSome? (terminal? s (.plain (.record s.input))) with
  | some t => defaultFor l t.ty
  | none => .ok (naturalDefault l)

theorem finishAlternative_eq_ok {p : Path} {span : Span} {n : Node} {ty : Option FlaggedTy}
    (h : finishAlternative p span = .ok (n, ty)) :
    finish p span none = .ok n ∧ ty = if p.notFound then none else some p.cur := by
  unfold finishAlternative at h
  cases hf : p.notFound with
  | true =>
    simp only [hf, if_true] at h
    cases h
    simp only [finish, hf, if_true, and_self]
  | false =>
    simp only [hf, Bool.false_eq_true, if_false] at h
    simp only [finish, hf, Bool.false_eq_true, if_false]
    split at h
    next hd =>
      cases h
      simp only [hd, if_true]
      exact ⟨rfl, trivial⟩
    next hd =>
      split at h
      next hp =>
        cases h
        simp only [hd, hp, if_true]
        exact ⟨rfl, trivial⟩
      next => cases h

theorem chains_eq_ok {cs : List Chain} {closed : List (Node × Option FlaggedTy)}
    (h : chains s base cs = .ok closed) :
    closed.filterMap (·.2) = cs.filterMap (terminal? s base) ∧
      ∃ ns, List.Forall₂ (fun c n => ∀ span, expr s base (.mk [c] none span) = .ok n) cs ns ∧
        List.Forall₂ (fun n r => ∃ span, r.1 = .mk .concatenation (.plain .string) span [n] [])
          ns closed := by
  induction cs generalizing closed with
  | nil =>
    cases h
    exact ⟨rfl, [], .nil, .nil⟩
  | cons c cs ih =>
    simp only [chains, bind_eq_ok, pure_eq_ok, Prod.exists] at h
    obtain ⟨p, hp, n, ty, hn, more, hmore, rfl⟩ := h
    obtain ⟨hfinish, hty⟩ := finishAlternative_eq_ok hn
    obtain ⟨hterminals, ns, hchains, hclosed⟩ := ih hmore
    refine ⟨?_, n :: ns, .cons (fun span => ?_) hchains, .cons ⟨_, rfl⟩ hclosed⟩
    · have hterminal : terminal? s base c = ty := by
        simp [terminal?, hp, Except.toOption, hty]
      rw [List.filterMap_cons, List.filterMap_cons, hterminal, hterminals]
    · simp only [expr, hp]
      exact hfinish

theorem expr_alternatives {cs : List Chain} {default : Option Literal} {span : Span} {n : Node}
    (hcs : ∀ c, cs = [c] → False) (h : expr s base (.mk cs default span) = .ok n) :
    ∃ closed f otherwise, chains s base cs = .ok closed ∧
      default.mapM (fun l => sharedDefault l (closed.filterMap (·.2))) = .ok f ∧
      n = .mk .orFallback (.plain .string) span (closed.map (·.1)) otherwise ∧
      ∀ {σ : Type} [Sink σ] (w : World ρ) (cur : FlaggedTy) (v : Value ρ) (sink : σ),
        walkAll w cur v otherwise sink =
          f.elim sink fun value => Run.fallback w.env value sink := by
  simp only [expr.eq_2 s base cs default span hcs, bind_eq_ok] at h
  obtain ⟨closed, hclosed, h⟩ := h
  cases default with
  | none =>
    cases h
    exact ⟨closed, none, [], hclosed, rfl, rfl, fun _ _ _ _ => rfl⟩
  | some l =>
    obtain ⟨value, hvalue, h⟩ := bind_eq_ok.mp h
    cases h
    refine ⟨closed, some value, _, hclosed, ?_, rfl, fun _ _ _ _ => rfl⟩
    rw [Option.mapM_some, hvalue]
    rfl

theorem declaredDefault_of_shared {cs : List Chain} {l : Literal} {value : Fallback}
    (h : sharedDefault l (cs.filterMap (terminal? s (.plain (.record s.input)))) = .ok value) :
    declaredDefault s cs l = .ok value := by
  rw [declaredDefault, ← List.head?_filterMap]
  cases htypes : cs.filterMap (terminal? s (.plain (.record s.input))) with
  | nil =>
    rw [htypes] at h
    exact h
  | cons t rest =>
    rw [htypes] at h
    simp only [sharedDefault, bind_eq_ok, pure_eq_ok] at h
    obtain ⟨first, hfirst, -, -, rfl⟩ := h
    exact hfirst

theorem declaredDefaults_of_shared {cs : List Chain} {default : Option Literal}
    {f : Option Fallback}
    (h : default.mapM (fun l => sharedDefault l
      (cs.filterMap (terminal? s (.plain (.record s.input))))) = .ok f) :
    default.mapM (declaredDefault s cs) = .ok f := by
  cases default with
  | none => exact h
  | some l =>
    rw [Option.mapM_some] at h ⊢
    cases hshared : sharedDefault l (cs.filterMap (terminal? s (.plain (.record s.input)))) with
    | error e =>
      rw [hshared] at h
      cases h
    | ok value =>
      rw [hshared] at h
      rw [declaredDefault_of_shared hshared]
      exact h

end Tree

/-- The text is read as an expression of the chain alone, whatever the places of its parts are. -/
def ReadsAs (text : String) (c : Chain) : Prop :=
  ∃ t, Template.parse text = .ok t ∧
    t.unplaced = Template.unplaced ⟨[.expr (.mk [c] none .nowhere)]⟩

section

variable {schema : Schema ρ} {functions : Functions ρ} {config : Config} {input sink : String}

def Renders (schema : Schema ρ) (functions : Functions ρ) (input : String) (n : Node)
    (p : Program ρ) : Prop :=
  ∀ {σ : Type} [Sink σ] [LawfulSink σ] (r : ρ) (params : Params ρ) (s : σ), p.run r params s =
    walk ⟨schema, functions, ⟨r, params⟩⟩ (.plain (.record input)) (.record r) n s

theorem program_of_chain {c : Chain} {n : Node} {text : String}
    (hshape : (schema.shape? input).isSome) (htext : ReadsAs text c)
    (hn : ∀ span, expr ⟨schema, functions, config.policy, input⟩ (.plain (.record input))
      (.mk [c] none span) = .ok n)
    (hdeep : tooDeep? config.maxDepth 0 n = none) (sink name : String) :
    ∃ p, Source.program schema functions config name ⟨text, input, sink⟩ = .ok p ∧
      Renders schema functions input n p := by
  obtain ⟨t, hparse, hbare⟩ := htext
  have hsegs : t.segments.map Segment.unplaced =
      [Segment.expr (.mk [c] none .nowhere)].map Segment.unplaced :=
    congrArg Template.segments hbare
  have hplaced : segments ⟨schema, functions, config.policy, input⟩
      [.expr (.mk [c] none .nowhere)] = .ok [n] := by
    simp only [segments, hn]
    rfl
  -- Both sets of places give the same nodes without places.
  have hmirror := (segments_mirrors _ [.expr (.mk [c] none .nowhere)]).eq_ok hplaced
  rw [← hsegs] at hmirror
  obtain ⟨ms, hms, hsame⟩ := (segments_mirrors _ t.segments).exists_ok hmirror
  have hres : Source.resolved schema functions config.policy ⟨text, input, sink⟩ =
      .ok (.root input sink ms) := Source.resolved_eq_ok.mpr ⟨t, hparse, hshape, hms⟩
  have hdeep' : tooDeepAll? config.maxDepth 0 ms = none := by
    have hsome := tooDeepAll?_unplaced config.maxDepth 0 ms
    rw [hsame, tooDeepAll?_unplaced config.maxDepth 0 [n]] at hsome
    rw [← Option.isNone_iff_eq_none, ← Option.not_isSome, ← hsome]
    simp [tooDeepAll?, hdeep]
  obtain ⟨p, hp⟩ := Source.program_of_resolved hres hdeep' name
  refine ⟨p, hp, fun r params s => ?_⟩
  rw [(Source.program_renders hres hp).2, ← walkAll_unplaced, hsame, walkAll_unplaced]
  rfl

theorem programs_of_alternatives {texts : List String} {cs : List Chain} {ns : List Node}
    {closed : List (Node × Option FlaggedTy)} (hshape : (schema.shape? input).isSome)
    (name : String → String) (htexts : List.Forall₂ ReadsAs texts cs)
    (hns : List.Forall₂ (fun c n => ∀ span, expr ⟨schema, functions, config.policy, input⟩
      (.plain (.record input)) (.mk [c] none span) = .ok n) cs ns)
    (hclosed : List.Forall₂ (fun n r => ∃ span,
      r.1 = .mk .concatenation (.plain .string) span [n] []) ns closed)
    (hdeep : tooDeepEach? config.maxDepth 1 (closed.map (·.1)) = none) :
    ∃ programs, List.Forall₂ (fun text p => Source.program schema functions config (name text)
        ⟨text, input, sink⟩ = .ok p) texts programs ∧
      List.Forall₂ (Renders schema functions input) (closed.map (·.1)) programs := by
  induction htexts generalizing ns closed with
  | nil =>
    cases hns
    cases hclosed
    exact ⟨[], .nil, .nil⟩
  | @cons text c texts cs htext _ ih =>
    cases hns with
    | cons hn hns =>
      cases hclosed with
      | @cons n r ns closed hr hclosed =>
        obtain ⟨m, ty⟩ := r
        obtain ⟨span, rfl⟩ := hr
        simp only [List.map_cons, tooDeepEach?, Option.or_eq_none_iff, tooDeepAll?,
          Option.or_none] at hdeep
        obtain ⟨hfirst, hrest⟩ := hdeep
        obtain ⟨p, hp, hrenders⟩ := program_of_chain hshape htext hn
          (tooDeep?_mono _ (Nat.zero_le _) _ hfirst) sink (name text)
        obtain ⟨programs, hprograms, hall⟩ := ih hns hclosed hrest
        refine ⟨p :: programs, .cons hp hprograms, .cons ?_ hall⟩
        intro σ _ _ r params s
        rw [hrenders, walk_concatenation]
        rfl

/-- The first program that writes anything is that of the first node that does. -/
theorem find?_renders [Sink σ] [LawfulSink σ] {ns : List Node} {programs : List (Program ρ)}
    (h : List.Forall₂ (Renders schema functions input) ns programs) (r : ρ) (params : Params ρ)
    (s other : σ) :
    (match ns.find? fun n => !Sink.isEmpty (walk ⟨schema, functions, ⟨r, params⟩⟩
        (.plain (.record input)) (.record r) n (Sink.fresh s)) with
      | some n => walk ⟨schema, functions, ⟨r, params⟩⟩ (.plain (.record input)) (.record r) n s
      | none => other) =
    match programs.find? fun p => !Sink.isEmpty (p.run r params (Sink.fresh s)) with
      | some p => p.run r params s
      | none => other := by
  induction h with
  | nil => rfl
  | @cons n p ns programs hn _ ih =>
    have hfresh := hn r params (Sink.fresh s)
    simp only [List.find?_cons, hfresh]
    cases Sink.isEmpty (walk ⟨schema, functions, ⟨r, params⟩⟩ (.plain (.record input)) (.record r) n
        (Sink.fresh s)) with
    | true => exact ih
    | false => exact (hn r params s).symm

end

/-- A program of alternatives writes what the first of them that does not leave a fresh sink empty
writes by itself, and nothing of those before it; where all leave it empty it writes the default, in
the type of the first alternative that leads somewhere. All alternatives compile by themselves, from
whatever text is read as one of them, and there are such texts. -/
theorem ordered_alternation {schema : Schema ρ} {functions : Functions ρ} {config : Config}
    {src : Source} {p : Program ρ} {cs : List Chain} {default : Option Literal} {span : Span}
    (name : String → String)
    (hparse : Template.parse src.template = .ok ⟨[.expr (.mk cs default span)]⟩)
    (hcs : 2 ≤ cs.length)
    (hp : src.program schema functions config (name src.template) = .ok p) :
    (∀ c ∈ cs, ∃ text, ReadsAs text c) ∧
    ∃ f, default.mapM (declaredDefault ⟨schema, functions, config.policy, src.input⟩ cs) = .ok f ∧
      ∀ texts, List.Forall₂ ReadsAs texts cs → ∃ programs,
        List.Forall₂ (fun text q => Source.program schema functions config (name text)
          ⟨text, src.input, src.sink⟩ = .ok q) texts programs ∧
        ∀ {σ : Type} [Sink σ] [LawfulSink σ] (input : ρ) (params : Params ρ) (s : σ),
          p.run input params s =
            match programs.find? fun q => !Sink.isEmpty (q.run input params (Sink.fresh s)) with
            | some q => q.run input params s
            | none => f.elim s fun value => Run.fallback ⟨input, params⟩ value s := by
  constructor
  · intro c hc
    have hfits : c.Within Template.maxNesting := (Template.parse_fits hparse).1.2.1 c hc
    have halone : Template.SegmentsFit [.expr (.mk [c] none .nowhere)] := by
      refine ⟨⟨by simp [Expr.alternatives], ?_, by simp [Expr.default]⟩, trivial⟩
      simpa [Expr.alternatives] using hfits
    exact ⟨_, Template.parse_print_of_fits .exact halone⟩
  · obtain ⟨children, hres⟩ := Source.resolved_of_program hp
    obtain ⟨hdeep, hrun⟩ := Source.program_renders hres hp
    obtain ⟨t, ht, hshape, hsegs⟩ := Source.resolved_eq_ok.mp hres
    obtain rfl : t = _ := Except.ok.inj (ht.symm.trans hparse)
    simp only [segments, bind_eq_ok, pure_eq_ok] at hsegs
    obtain ⟨n, hn, more, hmore, rfl⟩ := hsegs
    cases hmore
    have hseveral : ∀ c, cs = [c] → False := by
      rintro c rfl
      simp at hcs
    obtain ⟨closed, f, otherwise, hclosed, hf, rfl, hotherwise⟩ := expr_alternatives hseveral hn
    obtain ⟨hterminals, ns, hns, hnodes⟩ := chains_eq_ok hclosed
    -- Alternatives stand deeper than a chain by itself does.
    have heach : tooDeepEach? config.maxDepth 1 (closed.map (·.1)) = none := by
      simp only [tooDeepAll?, tooDeep?, Option.or_none] at hdeep
      split at hdeep
      · cases hdeep
      · exact (Option.or_eq_none_iff.mp hdeep).1
    rw [hterminals] at hf
    refine ⟨f, declaredDefaults_of_shared hf, fun texts htexts => ?_⟩
    obtain ⟨programs, hprograms, hrenders⟩ := programs_of_alternatives hshape name htexts hns hnodes
      heach
    refine ⟨programs, hprograms, fun input params s => ?_⟩
    simp only [hrun, walkAll, walk_orFallback, hotherwise]
    exact find?_renders hrenders input params s _

def guestSchema : Schema (String × Option String) :=
  ⟨[⟨"Guest", "Guest", [
    ⟨"nickname", .field, .plain .string, fun r => .string r.1⟩,
    ⟨"name", .field, (FlaggedTy.plain .string).asNullable,
      fun r => (r.2.map .string).getD .null⟩]⟩]⟩

def guestGreeting : Source := ⟨"$\x7bnickname | name ?? 'stranger'\x7d", "Guest", "text"⟩

theorem ordered_alternation_guest : ∃ p nickname called : Program (String × Option String),
    guestGreeting.program guestSchema .empty { policy := .strict } "greet" = .ok p ∧
    ∀ (guest : String × Option String) (s : TextSink), p.run guest .empty s =
      match [nickname, called].find? fun q => !Sink.isEmpty (q.run guest .empty (Sink.fresh s)) with
      | some q => q.run guest .empty s
      | none => Sink.accept s (Value.string "stranger" : Value (String × Option String)) := by
  have hok : (guestGreeting.program guestSchema .empty { policy := .strict } "greet").toBool := by
    decide +kernel
  obtain ⟨p, hp⟩ := eq_ok_of_toBool hok
  have hread : ((Template.parse guestGreeting.template).toOption.bind Template.defaulted?).any
      fun parts => parts.1.length == 2 &&
        (declaredDefault ⟨guestSchema, .empty, .strict, guestGreeting.input⟩ parts.1
          parts.2).toOption == some (.constant (.string "stranger")) := by
    decide +kernel
  obtain ⟨⟨cs, l⟩, hparts, hread⟩ := (Option.any_eq_true _ _).mp hread
  obtain ⟨span, hparse⟩ := Template.parse_defaulted hparts
  simp only [Bool.and_eq_true, beq_iff_eq] at hread
  obtain ⟨hlen, hdefault⟩ := hread
  obtain ⟨c, d, rfl⟩ := List.length_eq_two.mp hlen
  have hdefault := eq_ok_of_toOption hdefault
  obtain ⟨htexts, f, hf, hrun⟩ := ordered_alternation (fun _ => "greet") hparse (Nat.le_refl 2) hp
  obtain ⟨first, hfirst⟩ := htexts c (by simp)
  obtain ⟨second, hsecond⟩ := htexts d (by simp)
  obtain ⟨programs, hprograms, hrun⟩ :=
    hrun [first, second] (.cons hfirst (.cons hsecond .nil))
  obtain rfl : f = some (.constant (.string "stranger")) := by
    simp only [Option.mapM_some, hdefault] at hf
    cases hf
    rfl
  obtain ⟨nickname, called, rfl⟩ := List.length_eq_two.mp hprograms.length_eq.symm
  refine ⟨p, nickname, called, hp, fun guest s => ?_⟩
  rw [hrun guest .empty s]
  cases [nickname, called].find? fun q => !Sink.isEmpty (q.run guest .empty (Sink.fresh s))
  · rfl
  · rfl

end PathTemplate
