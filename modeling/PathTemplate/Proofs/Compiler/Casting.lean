import PathTemplate.Proofs.Compiler.Defaulting
import PathTemplate.Proofs.Sink.PlainText
import PathTemplate.Proofs.Template.Casts

namespace PathTemplate

open PathTemplate.Tree PathTemplate.Routine

variable {ρ : Type}

namespace Tree

structure Node.IsLink (n : Node) : Prop where
  mergeable : n.kind.isMergeable
  children : n.children = []
  otherwise : n.otherwise = []

/-- A path that goes on, and has at most `size` nodes so far. -/
structure Path.Straight (p : Path) (size : Nat) : Prop where
  done : p.done = false
  notFound : p.notFound = false
  links : ∀ n ∈ p.links, n.IsLink
  length : p.links.length ≤ size

section Straight

variable {s : Scope ρ} {base : FlaggedTy} {p q : Path} {size : Nat} {kind : NodeKind}

theorem Path.Straight.start : (Path.start base).Straight 0 :=
  ⟨rfl, rfl, by simp [Path.start], Nat.le_refl 0⟩

theorem Path.Straight.mono {larger : Nat} (h : p.Straight size) (hle : size ≤ larger) :
    p.Straight larger :=
  { h with length := h.length.trans hle }

theorem Path.Straight.link (h : p.Straight size) (hk : kind.isMergeable) (ty : FlaggedTy)
    (span : Span) : (p.link kind ty span).Straight (size + 1) where
  done := h.done
  notFound := h.notFound
  links := List.forall_mem_cons.mpr ⟨⟨hk, rfl, rfl⟩, h.links⟩
  length := Nat.succ_le_succ h.length

theorem Path.Straight.guard (h : p.Straight size) (span : Span) :
    (p.guard span).Straight (size + 2) := by
  have hnullable : ∀ {p : Path} {size : Nat}, p.Straight size →
      (if p.cur.nullable then p.link .nullableGuard p.cur.present span else p).Straight
        (size + 1) := by
    intro p size h
    split
    · exact h.link rfl _ span
    · exact h.mono (Nat.le_succ size)
  unfold Path.guard
  split
  · exact hnullable (h.link rfl _ span)
  · exact hnullable (h.mono (Nat.le_succ size))

def Path.StraightUnlessMissed (p : Path) (size : Nat) : Prop :=
  p.Straight size ∨ p.done ∧ p.notFound

theorem Path.StraightUnlessMissed.straight (h : p.StraightUnlessMissed size)
    (hn : p.notFound = false) : p.Straight size :=
  h.resolve_right fun hmissed => by simp [hn] at hmissed

theorem unresolved_missed {e : ResolveError} (h : unresolved s p e = .ok q) (size : Nat) :
    q.StraightUnlessMissed size := by
  unfold unresolved at h
  split at h
  · cases h
  · cases h
    exact .inr ⟨rfl, rfl⟩

theorem navigate_straight {id : Ident} {lookup : Lookup} (hp : p.Straight size)
    (h : navigate s p id lookup = .ok q) : q.StraightUnlessMissed (size + 3) := by
  rcases navigate_eq_ok h with ⟨a, ty, -, rfl⟩ | ⟨m, e, -, h⟩
  · exact .inl ((hp.guard id.span).link (by cases a <;> rfl) ty id.span)
  · exact unresolved_missed h _

theorem head_straight {hd : Head} (hp : p.Straight size) (h : head s p hd = .ok q) :
    q.StraightUnlessMissed (size + 3) := by
  cases hd with
  | name id => exact navigate_straight hp h
  | key id => exact navigate_straight hp h
  | call id args =>
    simp only [head] at h
    split at h
    next f _ =>
      obtain ⟨values, -, h⟩ := bind_eq_ok.mp h
      cases h
      exact .inl ((hp.link rfl f.returns id.span).mono (by omega))
    next =>
      split at h
      · exact navigate_straight hp h
      · exact unresolved_missed h _

theorem followAll_straight {steps : List Step} {plain : List (Ident × Lookup)}
    (hplain : plainSteps? steps = some plain) (hp : p.StraightUnlessMissed size)
    (h : followAll s p steps = .ok q) : q.StraightUnlessMissed (size + 3 * steps.length) := by
  induction steps generalizing p size plain with
  | nil =>
    cases h
    exact hp
  | cons step rest ih =>
    unfold followAll at h
    rcases hp with hp | hp
    · obtain ⟨id, lookup, more, hmore, rfl, hfollow⟩ := plainSteps?_cons (s := s) hplain
      simp only [hp.done, Bool.false_eq_true, if_false, bind_eq_ok, hfollow] at h
      obtain ⟨p', hp', h⟩ := h
      have hq := ih hmore (navigate_straight hp hp') h
      have hsize : size + 3 + 3 * rest.length = size + 3 * (step :: rest).length := by
        rw [List.length_cons]
        omega
      rwa [hsize] at hq
    · simp only [hp.1, if_true, pure_eq_ok] at h
      exact .inr (h ▸ hp)

theorem arithmetic_straight {a : Arithmetic} (hp : p.Straight size)
    (h : arithmetic p a = .ok q) : q.Straight (size + 3) := by
  obtain ⟨-, -, rfl⟩ := arithmetic_eq_ok h
  exact (hp.guard a.span).link rfl _ a.span

theorem conversion_straight {c : Conversion} (hp : p.Straight size)
    (h : conversion p c = .ok q) : q.Straight (size + 3) := by
  obtain ⟨-, rfl⟩ := conversion_eq_ok h
  exact (hp.guard c.span).link rfl _ c.span

theorem chainEnd_going (hd : p.done = false) (a : Option Arithmetic) (c : Option Conversion) :
    chainEnd p a c =
      a.elim (.ok p) (arithmetic p) >>= fun q => c.elim (.ok q) (conversion q) := by
  unfold chainEnd
  rw [if_neg (by simp [hd])]
  cases a <;> cases c <;> rfl

theorem chainEnd_straight {a : Option Arithmetic} {c : Option Conversion}
    (hp : p.StraightUnlessMissed size) (h : chainEnd p a c = .ok q) :
    q.StraightUnlessMissed (size + 6) := by
  rcases hp with hp | hp
  · rw [chainEnd_going hp.done] at h
    obtain ⟨p', hp', h⟩ := bind_eq_ok.mp h
    have hp' : p'.Straight (size + 3) := by
      cases a with
      | none =>
        cases hp'
        exact hp.mono (Nat.le_add_right size 3)
      | some a => exact arithmetic_straight hp hp'
    cases c with
    | none =>
      cases h
      exact .inl (hp'.mono (by omega))
    | some c => exact .inl (conversion_straight hp' h)
  · simp only [chainEnd, hp.1, if_true, pure_eq_ok] at h
    exact .inr (h ▸ hp)

section Chains

variable {hd : Head} {steps : List Step} {a : Option Arithmetic} {span : Span}
  {plain : List (Ident × Lookup)} (hplain : plainSteps? steps = some plain)
include hplain

/-- The head, every step, arithmetic and a cast add three nodes each at most. -/
theorem chain_straight {v : Option Conversion}
    (h : chain s base (.mk hd steps a v span) = .ok q) (hq : q.notFound = false) :
    q.Straight (3 * (steps.length + 3)) := by
  simp only [chain, bind_eq_ok] at h
  obtain ⟨p₁, h₁, p₂, h₂, h₃⟩ := h
  have hend := chainEnd_straight (followAll_straight hplain (head_straight .start h₁) h₂) h₃
  exact (hend.straight hq).mono (by omega)

theorem chain_conversion (h : chain s base (.mk hd steps a none span) = .ok p)
    (hp : p.notFound = false) (v : Conversion) (span' : Span) :
    chain s base (.mk hd steps a (some v) span') = conversion p v := by
  simp only [chain, bind_eq_ok] at h
  obtain ⟨p₁, h₁, p₂, h₂, h₃⟩ := h
  simp only [chain, h₁, h₂, bind, Except.bind]
  rcases followAll_straight hplain (head_straight .start h₁) h₂ with hstraight | hmissed
  · rw [chainEnd_going hstraight.done] at h₃ ⊢
    obtain ⟨p₃, h₃, hend⟩ := bind_eq_ok.mp h₃
    cases hend
    rw [h₃]
    rfl
  · simp only [chainEnd, hmissed.1, if_true, pure_eq_ok] at h₃
    simp [← h₃, hmissed.2] at hp

end Chains

end Straight

theorem tooDeep?_link {n : Node} (hn : n.IsLink) {max depth : Nat} (hd : depth ≤ max)
    (below : Node) : tooDeep? max depth (n.withChildren (n.children ++ [below])) =
      tooDeep? max (depth + 1) below := by
  obtain ⟨hm, hc, ho⟩ := hn
  obtain ⟨kind, ty, span, children, otherwise⟩ := n
  obtain rfl : children = [] := hc
  obtain rfl : otherwise = [] := ho
  have hle : ¬max < depth := Nat.not_lt.mpr hd
  cases kind with
  | field | method | mapAccess | math | cast | function | optionalGuard | nullableGuard =>
    simp [Node.withChildren, Node.kind, tooDeep?, tooDeepAll?, hle]
  | _ => simp [Node.kind, NodeKind.isMergeable] at hm

theorem tooDeep?_graft {links : List Node} (hlinks : ∀ n ∈ links, n.IsLink) {max depth : Nat}
    (hd : depth + links.length ≤ max) (below : Node) :
    tooDeep? max depth (graft links below) = tooDeep? max (depth + links.length) below := by
  induction links generalizing below with
  | nil => rfl
  | cons n rest ih =>
    obtain ⟨hn, hrest⟩ := List.forall_mem_cons.mp hlinks
    rw [List.length_cons] at hd
    have hbelow := tooDeep?_link hn (show depth + rest.length ≤ max by omega) below
    rw [graft, List.foldl_cons]
    exact (ih hrest (by omega) _).trans hbelow

def Path.printed (p : Path) (span : Span) : Node := (p.link (.print none) p.cur span).close span

theorem Path.printed_eq (p : Path) (span : Span) :
    p.printed span = graft p.links (.leaf (.print none) p.cur span) :=
  Path.close_cons _ span rfl

theorem Path.Straight.finish {p : Path} {size : Nat} (h : p.Straight size)
    (hp : p.cur.ty.isPrintable) (span : Span) : finish p span none = .ok (p.printed span) := by
  simp only [Tree.finish, h.done, h.notFound, hp, Bool.false_eq_true, if_false, if_true]
  rfl

theorem Path.Straight.tooDeep {p : Path} {size max : Nat} (h : p.Straight size) (hle : size ≤ max)
    (span : Span) : tooDeep? max 0 (p.printed span) = none := by
  have hlength := h.length.trans hle
  rw [Path.printed_eq, tooDeep?_graft h.links (by omega)]
  simp [Node.leaf, tooDeep?, hlength]

theorem orElse_nil (n : Node) : orElse [] n = n := by
  cases n
  simp [orElse, Node.withOtherwise, Node.kind, Node.ty, Node.span, Node.otherwise]

theorem accept_null (s : TextSink) : Sink.accept s (Value.null : Value ρ) = s :=
  congrArg (fun content => { s with content }) String.append_empty

/-- A sink of texts takes an absent value for an empty text, so that it makes no difference whether
a guard found it or the print. -/
theorem Path.Tracks.print_text {isA : ρ → String → Prop} {w : World ρ} {base : FlaggedTy}
    {v₀ : Value ρ} {p : Path} {stop : Stop ρ} {present : Bool}
    (h : p.Tracks isA w base v₀ stop present) (span : Span) (s : TextSink) :
    walk w base v₀ (p.printed span) s = if present then Sink.accept s stop.value else s := by
  have hsame : p.links.map (orElse []) = p.links := by
    rw [List.map_congr_left fun n _ => orElse_nil n, List.map_id']
  rw [Path.printed_eq]
  cases h.meets with
  | arrives arrives holds hpresent =>
    have hwalk := arrives [] (.leaf (.print none) p.cur span) s
    rw [hsame] at hwalk
    refine hwalk.trans ?_
    simp only [Node.leaf, walk, World.computed?, hpresent]
    cases hv : stop.value with
    | null => exact accept_null s
    | _ => rfl
  | fallsBack falls hpresent =>
    have hwalk := falls [] s s (fun _ _ => rfl) (.leaf (.print none) p.cur span)
    rw [hsame] at hwalk
    rw [hpresent]
    exact hwalk

end Tree

theorem Tree.Trail.isPresent_convert (t : Trail ρ) (c : Conversion) :
    (t.convert (some c)).isPresent = (!(t.last.value.cast c.target).isNull && t.isPresent) := rfl

theorem text_cast_string {isA : ρ → String → Prop} {ty : Ty} {v : Value ρ}
    (h : HasShape isA ty v) (hp : ty.isPrintable) (hl : ∀ item, ty ≠ .list item)
    (hu : ty ≠ .unknown) :
    ∃ text, v.cast .string = .string text ∧ TextFormat.standard.text v = text := by
  cases ty with
  | unknown => exact absurd rfl hu
  | list item => exact absurd rfl (hl item)
  | map | record => simp [Ty.isPrintable] at hp
  | _ =>
    obtain ⟨x, rfl⟩ := h
    exact ⟨_, rfl, TextFormat.standard_text (by simp)⟩

namespace Source

variable {schema : Schema ρ} {functions : Functions ρ} {config : Config} {src : Source} {c : Chain}
  {span : Span} {p : Path}

/-- A template of one chain without a join or a default has a program, if the depth is not limited
below three levels for every part of the chain. It walks the path of the chain. -/
theorem program_of_chain
    (hparse : Template.parse src.template = .ok ⟨[.expr (.mk [c] none span)]⟩)
    (hs : (schema.shape? src.input).isSome)
    (hchain : chain ⟨schema, functions, config.policy, src.input⟩ (.plain (.record src.input)) c =
      .ok p) (hp : p.Straight config.maxDepth) (hprint : p.cur.ty.isPrintable) (name : String) :
    ∃ prog, src.program schema functions config name = .ok prog ∧
      ∀ {σ : Type} [Sink σ] [LawfulSink σ] (input : ρ) (params : Params ρ) (s : σ),
        prog.run input params s = walk ⟨schema, functions, ⟨input, params⟩⟩
          (.plain (.record src.input)) (.record input) (p.printed c.span) s := by
  have hres : src.resolved schema functions config.policy =
      .ok (.root src.input src.sink [p.printed c.span]) := by
    refine Source.resolved_eq_ok.mpr ⟨_, hparse, hs, ?_⟩
    simp only [segments, expr, hchain, bind_eq_ok, pure_eq_ok]
    exact ⟨_, ⟨p, rfl, hp.finish hprint _⟩, [], rfl, rfl⟩
  have hdeep : tooDeepAll? config.maxDepth 0 [p.printed c.span] = none := by
    simp [tooDeepAll?, hp.tooDeep (Nat.le_refl _)]
  obtain ⟨prog, hprog⟩ := program_of_resolved hres hdeep name
  refine ⟨prog, hprog, fun input params s => ?_⟩
  rw [(program_renders hres hprog).2]
  rfl

end Source

theorem Tree.Path.Tracks.print_cast {isA : ρ → String → Prop} {s : Tree.Scope ρ} {env : Run.Env ρ}
    {base : FlaggedTy} {v₀ : Value ρ} {p q : Path} {t : Trail ρ} {castSpan : Span}
    (h : p.Tracks isA (s.world env) base v₀ t.last t.isPresent) (hprint : p.cur.ty.isPrintable)
    (hl : ∀ item, p.cur.ty ≠ .list item) (hu : p.cur.ty ≠ .unknown)
    (hq : conversion p ⟨.string, castSpan⟩ = .ok q) (span span' : Span) {sk : TextSink}
    (hformat : sk.format = .standard) :
    walk (s.world env) base v₀ (p.printed span) sk =
      walk (s.world env) base v₀ (q.printed span') sk := by
  have hcast := conversion_tracks h hq
  refine (h.print_text span sk).trans (.trans ?_ (hcast.print_text span' sk).symm)
  rw [Trail.isPresent_convert]
  cases hpresent : t.isPresent with
  | false => simp
  | true =>
    have hshape := h.hasShape hpresent
    rw [← h.cur] at hshape
    obtain ⟨text, htext, hsame⟩ := text_cast_string hshape hprint hl hu
    simp only [Trail.convert, Trail.push, htext, Value.isNull, Sink.accept, hformat, hsame]
    rfl

theorem Source.cast_string_run {types : RecordTypes ρ} {schema : Schema ρ} {functions : Functions ρ}
    {config : Config} (src src' : Source) {c : Chain} {span span' castSpan chainSpan : Span}
    {p : Path} (hc : Conforming types schema functions .empty)
    (hparse : Template.parse src.template = .ok ⟨[.expr (.mk [c] none span)]⟩)
    (hparse' : Template.parse src'.template = .ok ⟨[.expr (.mk
      [.mk c.head c.steps c.arithmetic (some ⟨.string, castSpan⟩) chainSpan] none span')]⟩)
    (hinput : src'.input = src.input) (hs : (schema.shape? src.input).isSome)
    (hjoin : c.join? = none) (hcast : c.conversion = none)
    (hchain : chain ⟨schema, functions, config.policy, src.input⟩ (.plain (.record src.input)) c =
      .ok p) (hp : p.notFound = false) (hprint : p.cur.ty.isPrintable)
    (hl : ∀ item, p.cur.ty ≠ .list item) (hu : p.cur.ty ≠ .unknown)
    (hdepth : 3 * (c.steps.length + 3) ≤ config.maxDepth) (name name' : String) :
    ∃ prog prog', src.program schema functions config name = .ok prog ∧
      src'.program schema functions config name' = .ok prog' ∧
      ∀ input, types.IsA schema input src.input → ∀ (params : Params ρ) (s : TextSink),
        s.format = .standard → prog.run input params s = prog'.run input params s := by
  obtain ⟨hd, steps, a, v, cspan⟩ := c
  obtain rfl : v = none := hcast
  obtain ⟨template', input', sink'⟩ := src'
  obtain rfl : input' = src.input := hinput
  have hfits : (Chain.mk hd steps a none cspan).Within Template.maxNesting :=
    (Template.parse_fits hparse).1.2.1 _ List.mem_cons_self
  obtain ⟨plain, hplain⟩ := Chain.plainSteps hfits hjoin
  have hstraight := chain_straight hplain hchain hp
  -- A cast to text is allowed from any printable type.
  have hconv : conversion p ⟨.string, castSpan⟩ = .ok
      ((p.guard castSpan).link (.cast .string) (.plain .string) castSpan) := by
    rw [conversion, Path.guard_cur_ty]
    exact if_pos (by simp [castAllowed, hprint])
  have hchain' := (chain_conversion hplain hchain hp ⟨.string, castSpan⟩ chainSpan).trans hconv
  have hstraight' := chain_straight hplain hchain' (conversion_straight hstraight hconv).notFound
  obtain ⟨prog, hprog, hrun⟩ :=
    Source.program_of_chain hparse hs hchain (hstraight.mono hdepth) hprint name
  obtain ⟨prog', hprog', hrun'⟩ :=
    Source.program_of_chain hparse' hs hchain' (hstraight'.mono hdepth) rfl name'
  refine ⟨prog, prog', hprog, hprog', fun input hin params s hformat => ?_⟩
  rw [hrun, hrun']
  have hends : p.Ends (types.IsA schema) ⟨schema, functions, config.policy, src.input⟩
      ⟨input, params⟩ (.plain (.record src.input)) (.record input) _ :=
    chain_ends hc hin hplain hchain
  cases htrail : trail? ⟨schema, functions, config.policy, src.input⟩ ⟨input, params⟩
      (.mk hd steps a none cspan) with
  | none =>
    rw [htrail] at hends
    simp [hends.2.notFound] at hp
  | some t =>
    rw [htrail] at hends
    exact Path.Tracks.print_cast hends hprint hl hu hconv cspan chainSpan hformat

/-- A cast to text does not show. A chain without a join or a cast that gets to a printable value,
neither a list nor of unknown type, has a program with a cast to text behind it as well as without,
if the depth limit allows three levels for each part. For every input the two add the same to a sink
of texts in the standard format. -/
theorem cast_string_neutral {types : RecordTypes ρ} {schema : Schema ρ} {functions : Functions ρ}
    (config : Config) (text type sink : String) {c : Chain} {span : Span} {p : Path}
    (hc : Conforming types schema functions .empty) (hs : (schema.shape? type).isSome)
    (hparse : Template.parse ("$\x7b" ++ text ++ "\x7d") = .ok ⟨[.expr (.mk [c] none span)]⟩)
    (hjoin : c.join? = none) (hcast : c.conversion = none)
    (hchain : chain ⟨schema, functions, config.policy, type⟩ (.plain (.record type)) c = .ok p)
    (hp : p.notFound = false) (hprint : p.cur.ty.isPrintable)
    (hl : ∀ item, p.cur.ty ≠ .list item) (hu : p.cur.ty ≠ .unknown)
    (hdepth : 3 * (c.steps.length + 3) ≤ config.maxDepth) (name name' : String) :
    ∃ prog prog',
      (Source.mk ("$\x7b" ++ text ++ "\x7d") type sink).program schema functions config name =
        .ok prog ∧
      (Source.mk ("$\x7b" ++ text ++ " as string\x7d") type sink).program schema functions config
        name' = .ok prog' ∧
      ∀ input, types.IsA schema input type → ∀ (params : Params ρ) (s : TextSink),
        s.format = .standard → prog.run input params s = prog'.run input params s := by
  obtain ⟨castSpan, chainSpan, span', hparse'⟩ :=
    Template.parse_cast .string rfl hjoin hcast hparse
  have htext : "$\x7b" ++ text ++ " as " ++ Ty.string.text ++ "\x7d" =
      "$\x7b" ++ text ++ " as string\x7d" := by
    have hword : " as " ++ Ty.string.text ++ "\x7d" = " as string\x7d" := by decide
    rw [← hword]
    simp only [String.append_assoc]
  rw [htext] at hparse'
  exact Source.cast_string_run ⟨_, type, sink⟩ ⟨_, type, sink⟩ hc hparse hparse' rfl hs hjoin hcast
    hchain hp hprint hl hu hdepth name name'

namespace Shop

def onlyChain? (s : String) : Option (Chain × Path) :=
  match (Template.parse s).toOption with
  | some ⟨[.expr (.mk [c] none _)]⟩ =>
    (chain ⟨schema, .empty, .strict, "Order"⟩ (.plain (.record "Order")) c).toOption.map (c, ·)
  | _ => none

theorem onlyChain?_eq_some {s : String} {c : Chain} {p : Path} (h : onlyChain? s = some (c, p)) :
    ∃ span, Template.parse s = .ok ⟨[.expr (.mk [c] none span)]⟩ ∧
      chain ⟨schema, .empty, .strict, "Order"⟩ (.plain (.record "Order")) c = .ok p := by
  unfold onlyChain? at h
  split at h
  next c' span hparse =>
    obtain ⟨p', hp', heq⟩ := Option.map_eq_some_iff.mp h
    cases heq
    exact ⟨span, eq_ok_of_toOption hparse, eq_ok_of_toOption hp'⟩
  next => cases h

end Shop

open Shop in
theorem cast_string_neutral_level : ∃ prog prog',
    (Source.mk "$\x7bcustomer.points()['level'] + 1\x7d" "Order" "text").program schema .empty
      { policy := .strict } "level" = .ok prog ∧
    (Source.mk "$\x7bcustomer.points()['level'] + 1 as string\x7d" "Order" "text").program schema
      .empty { policy := .strict } "level" = .ok prog' ∧
    ∀ customer, prog.run (.order customer) .empty (TextSink.ofFormat .standard) =
      prog'.run (.order customer) .empty (TextSink.ofFormat .standard) := by
  have hread : (onlyChain? "$\x7bcustomer.points()['level'] + 1\x7d").any fun found =>
      found.1.join?.isNone && found.1.conversion.isNone && found.1.steps.length == 2 &&
        !found.2.notFound && found.2.cur.ty == .int := by
    decide +kernel
  obtain ⟨⟨c, p⟩, honly, hread⟩ := (Option.any_eq_true _ _).mp hread
  simp only [Bool.and_eq_true, Option.isNone_iff_eq_none, beq_iff_eq, Bool.not_eq_true'] at hread
  obtain ⟨⟨⟨⟨hjoin, hcast⟩, hlength⟩, hp⟩, hty⟩ := hread
  obtain ⟨span, hparse, hchain⟩ := onlyChain?_eq_some honly
  obtain ⟨prog, prog', hprog, hprog', hrun⟩ := cast_string_neutral { policy := .strict }
    "customer.points()['level'] + 1" "Order" "text" schema_conforming rfl hparse hjoin hcast hchain
    hp (by rw [hty]; rfl) (by simp [hty]) (by simp [hty]) (by rw [hlength]; decide) "level" "level"
  exact ⟨prog, prog', hprog, hprog', fun customer => hrun (.order customer) rfl .empty _ rfl⟩

end PathTemplate
