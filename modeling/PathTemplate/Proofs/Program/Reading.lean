import PathTemplate.Proofs.Program.Naming
import PathTemplate.Proofs.Program.Simulation
import PathTemplate.Proofs.Tree.Normal
import PathTemplate.Template.Parser

namespace PathTemplate

open PathTemplate.Tree PathTemplate.Routine

variable {ρ σ : Type}

/-- A sink that null adds nothing to. -/
class IgnoresNull (σ : Type) [Sink σ] : Prop where
  accept_null : ∀ {ρ : Type} (s : σ), Sink.accept s (.null : Value ρ) = s

instance : IgnoresNull TextSink where
  accept_null s := by
    show s.append (s.format.text .null) = s
    simp [TextSink.append, TextFormat.text, TextFormat.scalar, Value.text?]

instance : IgnoresNull BinarySink where
  accept_null s := by
    show s.append (BinarySink.encode .null) = s
    simp [BinarySink.append, BinarySink.encode]

instance : IgnoresNull ObjectSink where
  accept_null _ := rfl

namespace Routine

section

variable {w : World ρ} {temps : List String} {cx : Context} {st st' : Supply} {v : Value ρ} {s : σ}
  {b : Locals ρ σ}

theorem byName_argument (hb : Ready w.env temps cx st v s b) (a : Argument) :
    ByName.argument w.schema b a = some (w.argument a) := by
  cases a with
  | constant | null => rfl
  | path steps => rw [ByName.argument, Locals.value?_eq hb.input, Option.map_some]; rfl

theorem narrowed_append (guard : GuardKind) (name : String) (v : Value ρ) (b : Locals ρ σ) :
    ∃ bound : Locals ρ σ, (∀ x ∈ bound, x = (name, .value v)) ∧
      ByName.narrowed guard name v b = bound ++ b := by
  cases guard with
  | optional => exact ⟨[(name, .value v)], by simp, rfl⟩
  | nullable => exact ⟨[], by simp, rfl⟩

theorem Ready.narrowed (guard : GuardKind) (ty : FlaggedTy) (hb : Ready w.env temps cx st v s b) :
    Ready w.env temps (cx.descend cx.value ty) st v s
      (ByName.narrowed guard (tempName temps cx.value) v b) := by
  have hsame : ∀ {name : String},
      (ByName.narrowed guard (tempName temps cx.value) v b).lookup name = b.lookup name := by
    intro name
    cases guard with
    | nullable => rfl
    | optional =>
      by_cases hname : name = tempName temps cx.value
      · rw [hname, hb.value]
        exact List.lookup_cons_self
      · rw [ByName.narrowed, List.lookup_cons, beq_false_of_ne hname]
  exact ⟨hsame.trans hb.value, hsame.trans hb.sink, hsame.trans hb.input, hsame.trans hb.params,
    hb.value_lt, hb.sink_le⟩

theorem Leaves.leave_narrowed (guard : GuardKind) {s' : σ} {b' : Locals ρ σ}
    (hb : Ready w.env temps cx st v s b)
    (h : Leaves temps st st' cx.sink s' (ByName.narrowed guard (tempName temps cx.value) v b) b') :
    b.leave b' = Locals.assign (sinkName cx.sink) s' b := by
  obtain ⟨bound, hbound, heq⟩ := narrowed_append guard (tempName temps cx.value) v b
  obtain ⟨news, -, rfl⟩ := h
  have hne := hb.ne_sink hb.value (by simp)
  rw [heq, Locals.assign_append fun x hx => by rw [hbound x hx]; exact hne.symm,
    ← List.append_assoc, Locals.leave_append Locals.length_assign]

variable [Sink σ]

theorem byName_singleton (schema : Schema ρ) (functions : Functions ρ) (sink : Nat) (stmt : Stmt)
    (b : Locals ρ σ) : ByName.block schema functions temps sink [stmt] b =
      ByName.stmt schema functions temps sink stmt b := by
  simp [ByName.block]

theorem byName_append (schema : Schema ρ) (functions : Functions ρ) (sink : Nat)
    (stmts more : List Stmt) (b : Locals ρ σ) :
    ByName.block schema functions temps sink (stmts ++ more) b =
      (ByName.block schema functions temps sink stmts b).bind
        (ByName.block schema functions temps sink more) := by
  induction stmts generalizing b with
  | nil => rfl
  | cons first rest ih =>
    simp only [List.cons_append, ByName.block, Option.bind_eq_bind, Option.bind_assoc]
    exact congrArg _ (funext ih)

theorem byName_fallback [IgnoresNull σ] (hb : Ready w.env temps cx st v s b) (f : Fallback) :
    ∃ d, ByName.fallback b f = some d ∧ ∀ s' : σ, Sink.accept s' d = Run.fallback w.env f s' := by
  cases f with
  | constant c => exact ⟨_, rfl, fun _ => rfl⟩
  | param name =>
    refine ⟨_, by rw [ByName.fallback, Locals.params?_eq hb.params, Option.map_some], fun s' => ?_⟩
    cases h : w.env.params.get? name with
    | none => simp [Run.fallback, h, IgnoresNull.accept_null]
    | some d => simp [Run.fallback, h]

theorem byName_computing {ty : Ty} {kind : NodeKind} {temp : TempKind} {stmt : Stmt} {dst : Nat}
    (h : computing? dst cx.value ty kind = some (temp, stmt)) (hb : Ready w.env temps cx st v s b) :
    ∃ v', w.computed? ty v kind = some v' ∧
      ByName.stmt w.schema w.functions temps cx.sink stmt b =
        some ((tempName temps dst, .value v') :: b) := by
  have hv := Locals.value?_eq hb.value
  cases kind with
  | field | method | mapAccess | math | cast =>
    obtain ⟨rfl, rfl⟩ : _ ∧ _ := by simpa [computing?] using h
    exact ⟨_, rfl, by simp [ByName.stmt, hv]⟩
  | function name args =>
    obtain ⟨rfl, rfl⟩ : _ ∧ _ := by simpa [computing?] using h
    have hargs : args.mapM (ByName.argument w.schema b) = some (args.map w.argument) := by
      rw [funext (byName_argument hb)]
      exact List.mapM_pure
    exact ⟨_, rfl, by simp [ByName.stmt, hargs, World.call]⟩
  | _ => simp [computing?] at h

theorem byName_emit [IgnoresNull σ] (hb : Ready w.env temps cx st v s b) (check : EmitCheck) :
    ByName.stmt w.schema w.functions temps cx.sink (.emit cx.value check) b =
      some (Locals.assign (sinkName cx.sink) (Run.emit w.env v check s) b) := by
  have hv := Locals.value?_eq hb.value
  cases check with
  | unchecked =>
    simp only [ByName.stmt, hv, Option.bind_eq_bind, Option.bind_some]
    rw [Locals.update_eq hb.sink]
    cases v <;> rfl
  | skipAbsent =>
    simp only [ByName.stmt, hv, Option.bind_eq_bind, Option.bind_some]
    cases v with
    | null =>
      show some b = _
      rw [Run.emit, IgnoresNull.accept_null, Locals.assign_of_lookup hb.sink]
      simp
    | _ => exact Locals.update_eq hb.sink
  | default f =>
    obtain ⟨d, hd, hf⟩ := byName_fallback hb f
    simp only [ByName.stmt, hv, hd, Option.bind_eq_bind, Option.bind_some]
    rw [Locals.update_eq hb.sink]
    cases v with
    | null => rw [Run.emit, ← hf]; rfl
    | _ => rfl

theorem byName_emitDefault [IgnoresNull σ] (hb : Ready w.env temps cx st v s b) (f : Fallback) :
    ByName.stmt w.schema w.functions temps cx.sink (.emitDefault f) b =
      some (Locals.assign (sinkName cx.sink) (Run.fallback w.env f s) b) := by
  obtain ⟨d, hd, hf⟩ := byName_fallback hb f
  simp only [ByName.stmt, hd, Option.bind_eq_bind, Option.bind_some, Locals.update_eq hb.sink, hf]

variable (w temps)

/-- Run by names, the statements of a context write what `f` does. -/
def ReadsAs (cx : Context) (st st' : Supply) (stmts : List Stmt) (v : Value ρ) (f : σ → σ) : Prop :=
  ∀ (s : σ) (b : Locals ρ σ), Ready w.env temps cx st v s b →
    ∃ b', ByName.block w.schema w.functions temps cx.sink stmts b = some b' ∧
      Leaves temps st st' cx.sink (f s) b b'

/-- Alternatives that are tried in turn give the first that `f` writes, which is put into the sink
around them. -/
def Tries (cx : Context) (st st' : Supply) (bodies : List (List Stmt)) (v : Value ρ)
    (f : σ → Option σ) : Prop :=
  ∀ (parent : Nat) (s inner : σ) (b : Locals ρ σ), Ready w.env temps cx st v inner b →
    b.lookup (sinkName parent) = some (.sink s) → parent < cx.sink →
    ∃ inner' b', Leaves temps st st' cx.sink inner' b b' ∧
      (f inner = some inner' ∧
          ByName.alternatives w.schema w.functions temps cx.sink parent bodies b =
            some (true, Locals.assign (sinkName parent) (Sink.splice s inner') b') ∨
        f inner = none ∧
          ByName.alternatives w.schema w.functions temps cx.sink parent bodies b =
            some (false, b'))

variable {w temps}

theorem ReadsAs.append (hn : Named temps) {st'' : Supply} {stmts more : List Stmt} {f g : σ → σ}
    (hr : st'.next ≤ temps.length) (hl : Later st st') (hl' : Later st' st'')
    (h : ReadsAs w temps cx st st' stmts v f) (h' : ReadsAs w temps cx st' st'' more v g) :
    ReadsAs w temps cx st st'' (stmts ++ more) v fun s => g (f s) := by
  intro s b hb
  obtain ⟨b', hrun, hleaves⟩ := h s b hb
  obtain ⟨b'', hrun', hleaves'⟩ := h' (f s) b' (hleaves.ready hn hr hl hb)
  refine ⟨b'', ?_, hleaves.trans hn hr hl hl' hb hleaves'⟩
  rw [byName_append, hrun, Option.bind_some, hrun']

theorem Tries.cons (hn : Named temps) {st'' : Supply} {body : List Stmt} {more : List (List Stmt)}
    {n : Node} {ns : List Node} (hr : st'.next ≤ temps.length) (hl : Later st st')
    (hl' : Later st' st'') (h : ReadsAs w temps cx st st' body v (Tree.walk w cx.ty v n : σ → σ))
    (h' : Tries w temps cx st' st'' more v (firstWritten w cx.ty v ns : σ → Option σ)) :
    Tries w temps cx st st'' (body :: more) v
      (firstWritten w cx.ty v (n :: ns) : σ → Option σ) := by
  intro parent s inner b hb hparent hlt
  -- The sink is emptied and the body is run in it.
  have hreset : Leaves temps st st cx.sink (Sink.reset inner) b _ := Leaves.assign
  have hready := hreset.ready hn (Nat.le_trans hl.next hr) Later.refl hb
  obtain ⟨b₁, hrun, hleaves⟩ := h _ _ hready
  have hready₁ := hleaves.ready hn hr hl hready
  have hleaves₁ := hreset.trans hn (Nat.le_trans hl.next hr) Later.refl hl hb hleaves
  have hparent₁ : b₁.lookup (sinkName parent) = some (.sink s) := by
    rw [hleaves₁.lookup (fun heq => Nat.ne_of_gt hlt (sinkName_inj heq)) fun hnew =>
      hnew.ne_sink hn hr (by have := hb.sink_le; omega), hparent]
  simp only [ByName.alternatives, Locals.update_eq hb.sink, hrun, Locals.sink?_eq hready₁.sink,
    Option.bind_eq_bind, Option.bind_some, firstWritten]
  split
  · obtain ⟨inner', b', hleaves', hfound⟩ := h' parent s _ b₁ hready₁ hparent₁ hlt
    exact ⟨inner', b', hleaves₁.trans hn hr hl hl' hb hleaves', hfound⟩
  · refine ⟨_, b₁, ?_, .inl ⟨rfl, ?_⟩⟩
    · exact hleaves₁.trans hn hr hl hl' hb (Leaves.refl hready₁)
    · rw [Locals.update_eq hparent₁]
      rfl

theorem ReadsAs.nil {s' : Supply} : ReadsAs w temps cx st s' [] v (fun s : σ => s) :=
  fun _ b hb => ⟨b, rfl, Leaves.refl hb⟩

theorem ReadsAs.write {stmt : Stmt} {f : σ → σ}
    (h : ∀ (s : σ) (b : Locals ρ σ), Ready w.env temps cx st v s b →
      ByName.stmt w.schema w.functions temps cx.sink stmt b =
        some (Locals.assign (sinkName cx.sink) (f s) b)) :
    ReadsAs w temps cx st st' [stmt] v f :=
  fun s b hb => ⟨_, by rw [byName_singleton, h s b hb], Leaves.assign⟩

theorem ReadsAs.compute (hn : Named temps) {kind : NodeKind} {ty : FlaggedTy} {k : TempKind}
    {stmt : Stmt} {rest : List Stmt} {v' : Value ρ} {f : σ → σ}
    (hr : (st.temp k).2.next ≤ temps.length) (hl : Later (st.temp k).2 st')
    (computes : computing? st.next cx.value ty.ty kind = some (k, stmt))
    (hv : w.computed? ty.ty v kind = some v')
    (h : ReadsAs w temps (cx.descend st.next ty) (st.temp k).2 st' rest v' f) :
    ReadsAs w temps cx st st' (stmt :: rest) v f := by
  intro s b hb
  obtain ⟨v'', hv'', hrun⟩ := byName_computing computes hb
  obtain rfl : v'' = v' := Option.some.inj (hv''.symm.trans hv)
  obtain ⟨b', hrun', hleaves⟩ := h s _ (hb.compute hn hr)
  refine ⟨b', ?_, (Leaves.declare hb (between_temp k)).trans hn hr (later_temp k) hl hb hleaves⟩
  rw [ByName.block, hrun]
  exact hrun'

theorem ReadsAs.guard {guard : GuardKind} {ty : FlaggedTy} {st'' : Supply}
    {present absent : List Stmt} {f g : σ → σ} (hl : Later st st')
    (hpresent : ReadsAs w temps (cx.descend cx.value ty) st st' present v f)
    (habsent : ReadsAs w temps cx.deeper st' st'' absent v g) :
    ReadsAs w temps cx st st'' [.ifPresent guard cx.value present absent] v fun s =>
      if v.isNull then g s else f s := by
  refine .write fun s b hb => ?_
  simp only [ByName.stmt, Locals.value?_eq hb.value, Option.bind_eq_bind, Option.bind_some]
  split
  next =>
    obtain ⟨b', hrun, hleaves⟩ := habsent s b (hb.later hl).deeper
    rw [show ByName.block w.schema w.functions temps cx.sink absent b = some b' from hrun]
    exact congrArg some hleaves.leave
  next =>
    obtain ⟨b', hrun, hleaves⟩ := hpresent s _ (hb.narrowed guard ty)
    rw [show ByName.block w.schema w.functions temps cx.sink present _ = some b' from hrun]
    exact congrArg some (hleaves.leave_narrowed guard hb)

theorem ReadsAs.capture (hn : Named temps) {body : List Stmt} {f : σ → σ}
    (hr : st'.next ≤ temps.length) (hl : Later st.sink.2 st')
    (h : ReadsAs w temps (cx.deeper.into st.sink.1) st.sink.2 st' body v f) :
    ReadsAs w temps cx st st' [.capture st.sink.1 cx.sink body] v fun s =>
      Sink.splice s (f (Sink.fresh s)) := by
  intro s b hb
  obtain ⟨b', hrun, hleaves⟩ := h (Sink.fresh s) _ (hb.into hn (Nat.le_trans hl.next hr))
  obtain ⟨houter, hinner⟩ := hleaves.inner hn hr hl hb
  have hready := houter.ready hn hr (later_sink.trans hl) hb
  refine ⟨_, ?_, houter.update hn hr hb⟩
  rw [byName_singleton, ByName.stmt]
  simp only [Locals.sink?_eq hb.sink, Option.bind_eq_bind, Option.bind_some]
  rw [show ByName.block w.schema w.functions temps st.sink.1 body _ = some b' from hrun]
  simp only [Option.bind_some, Locals.sink?_eq hinner]
  exact Locals.update_eq hready.sink

theorem ReadsAs.orElse (hn : Named temps) {st'' : Supply} {bodies : List (List Stmt)}
    {absent : List Stmt} {f : σ → Option σ} {g : σ → σ} (hr : st''.next ≤ temps.length)
    (hl : Later st.sink.2 st') (hl' : Later st' st'')
    (h : Tries w temps (cx.deeper.into st.sink.1) st.sink.2 st' bodies v f)
    (habsent : ReadsAs w temps cx.deeper st' st'' absent v g) :
    ReadsAs w temps cx st st'' [.firstNonEmpty st.sink.1 cx.sink bodies absent] v fun s =>
      match f (Sink.fresh s) with
      | some inner => Sink.splice s inner
      | none => g s := by
  have hr' : st'.next ≤ temps.length := Nat.le_trans hl'.next hr
  intro s b hb
  have hlt : cx.sink < st.sink.1 := Nat.lt_succ_of_le hb.sink_le
  have hparent : List.lookup (sinkName cx.sink)
      ((sinkName st.sink.1, .sink (Sink.fresh s)) :: b) = some (.sink s) := by
    rw [List.lookup_cons, beq_false_of_ne fun heq => Nat.ne_of_lt hlt (sinkName_inj heq)]
    exact hb.sink
  obtain ⟨inner', b', hleaves, hfound⟩ := h cx.sink s (Sink.fresh s) _
    (hb.into hn (Nat.le_trans hl.next hr')) hparent hlt
  obtain ⟨houter, -⟩ := hleaves.inner hn hr' hl hb
  have hready := houter.ready hn hr' (later_sink.trans hl) hb
  rw [byName_singleton, ByName.stmt]
  simp only [Locals.sink?_eq hb.sink, Option.bind_eq_bind, Option.bind_some]
  rcases hfound with ⟨hf, hrun⟩ | ⟨hf, hrun⟩
  · simp only [hf]
    refine ⟨_, ?_, hleaves.closed hn hr hl hl' hb Leaves.assign⟩
    rw [show ByName.alternatives w.schema w.functions temps st.sink.1 cx.sink bodies _ = _
      from hrun]
    rfl
  · obtain ⟨b'', hrun', hleaves'⟩ := habsent s b' hready.deeper
    simp only [hf]
    refine ⟨_, ?_, hleaves.closed hn hr hl hl' hb hleaves'⟩
    rw [show ByName.alternatives w.schema w.functions temps st.sink.1 cx.sink bodies _ = _
      from hrun]
    simp only [Option.bind_some, Bool.false_eq_true, if_false]
    rw [show ByName.block w.schema w.functions temps cx.sink absent b' = some b'' from hrun']
    rfl

theorem ReadsAs.congr {stmts : List Stmt} {f g : σ → σ} (h : ReadsAs w temps cx st st' stmts v f)
    (hfg : ∀ s, g s = f s) : ReadsAs w temps cx st st' stmts v g := by
  rwa [funext hfg]

theorem ReadsAs.deeper {stmts : List Stmt} {f : σ → σ}
    (h : ReadsAs w temps cx.deeper st st' stmts v f) : ReadsAs w temps cx st st' stmts v f :=
  fun s b hb => h s b hb.deeper

theorem Tries.nil : Tries w temps cx st st' [] v (fun _ : σ => none) :=
  fun _ _ inner b hb _ _ => ⟨inner, b, Leaves.refl hb, .inr ⟨rfl, rfl⟩⟩

theorem computed?_of_computing {dst src : Nat} {ty : Ty} {kind : NodeKind} {k : TempKind}
    {stmt : Stmt} (w : World ρ) (v : Value ρ) (h : computing? dst src ty kind = some (k, stmt)) :
    ∃ v', w.computed? ty v kind = some v' := by
  cases kind <;> simp only [computing?, reduceCtorEq] at h
  all_goals exact ⟨_, rfl⟩

end

section

variable [Sink σ] {w : World ρ} {temps : List String}

mutual

theorem Generates.readsAs [LawfulSink σ] [IgnoresNull σ] (hn : Named temps) {cx : Context}
    {n : Node} {st st' : Supply} {stmts : List Stmt} (v : Value ρ) (hr : st'.next ≤ temps.length) :
    Generates cx n st stmts st' →
      ReadsAs w temps cx st st' stmts v (Tree.walk w cx.ty v n : σ → σ)
  | .literal => .write fun s b hb => by
    rw [ByName.stmt, Locals.update_eq hb.sink]
    simp only [Tree.walk, World.computed?]
  | .compute computes below => by
    obtain ⟨v', hv'⟩ := computed?_of_computing w v computes
    have h := below.readsAs hn v' hr
    refine (ReadsAs.compute hn (Nat.le_trans below.later.next hr) below.later computes hv' h).congr
      fun s => ?_
    simp only [Tree.walk, hv']
    rfl
  | .guard guards below aside => by
    have hr' := Nat.le_trans aside.later.next hr
    refine (ReadsAs.guard below.later (below.readsAs hn v hr') (aside.readsAs hn v hr)).congr
      fun s => ?_
    exact walk_guard w guards ..
  | .orFallback below aside => by
    have hr' := Nat.le_trans aside.later.next hr
    refine (ReadsAs.orElse hn hr below.later aside.later (below.tries hn v hr')
      (aside.readsAs hn v hr)).congr fun s => ?_
    simp only [Tree.walk, World.computed?]
    rfl
  | .concatenation below => by
    refine (ReadsAs.capture hn hr below.later (below.readsAs hn v hr)).congr fun s => ?_
    simp only [Tree.walk, World.computed?]
    rfl
  | .print => .write fun s b hb => by
    rw [byName_emit hb, emit_checkFor]
  | .default => .write fun s b hb => by
    rw [byName_emitDefault hb]
    simp only [Tree.walk, World.computed?]
  | .notFound below => fun s b hb => by
    obtain ⟨b', hrun, hleaves⟩ := below.readsAs hn v hr s b hb
    simp only [Tree.walk, World.computed?]
    exact ⟨b', hrun, hleaves⟩
  | .root below => by
    refine (below.readsAs hn v hr).congr fun s => ?_
    simp only [Tree.walk, World.computed?]

theorem GeneratesAll.readsAs [LawfulSink σ] [IgnoresNull σ] (hn : Named temps) {cx : Context}
    {ns : List Node} {st st' : Supply} {stmts : List Stmt} (v : Value ρ)
    (hr : st'.next ≤ temps.length) :
    GeneratesAll cx ns st stmts st' →
      ReadsAs w temps cx st st' stmts v (walkAll w cx.ty v ns : σ → σ)
  | .nil => .nil
  | .cons first rest => by
    have hr' := Nat.le_trans rest.later.next hr
    have h := (first.readsAs hn v hr').append hn hr' first.later rest.later (rest.readsAs hn v hr)
    exact h.congr fun s => rfl

theorem GeneratesEach.tries [LawfulSink σ] [IgnoresNull σ] (hn : Named temps) {cx : Context}
    {ns : List Node} {st st' : Supply} {bodies : List (List Stmt)} (v : Value ρ)
    (hr : st'.next ≤ temps.length) :
    GeneratesEach cx ns st bodies st' →
      Tries w temps cx st st' bodies v (firstWritten w cx.ty v ns : σ → Option σ)
  | .nil => .nil
  | .concatenation first rest => by
    have hr' := Nat.le_trans rest.later.next hr
    refine Tries.cons hn hr' first.later rest.later (.congr (first.readsAs hn v hr').deeper ?_)
      (rest.tries hn v hr)
    -- The alternative is written in place, without a sink of its own.
    exact walk_concatenation w cx.ty _ v _ _ _
  | .other first rest => by
    have hr' := Nat.le_trans rest.later.next hr
    exact Tries.cons hn hr' first.later rest.later (first.readsAs hn v hr') (rest.tries hn v hr)

end

end

theorem runByName_eq_walkAll [Sink σ] [LawfulSink σ] [IgnoresNull σ] {depth : Nat} {name : String}
    {n : Node} {r : Routine} (h : ofTree depth name n = .ok r) (w : World ρ) (s : σ) :
    r.runByName w.schema w.functions w.env s =
      some (walkAll w n.ty (.record w.env.input) n.children s) := by
  obtain ⟨st, hgen, hlen, -⟩ := ofTree_generates h
  obtain ⟨temps, htemps⟩ := ofTree_tempNames h
  have hn : Named r.temps := htemps ▸ .tempNames temps
  have hready : Ready w.env r.temps ⟨0, 0, 0, n.ty⟩ .empty (.record w.env.input) s
      [("input", .value (.record w.env.input)), ("params", .params w.env.params),
        ("acc", .sink s)] :=
    ⟨by simp [hn.input], rfl, rfl, rfl, Nat.succ_pos _, Nat.le_refl _⟩
  have hr := Nat.le_of_eq hlen.symm
  obtain ⟨b, hrun, hleaves⟩ := hgen.readsAs hn (.record w.env.input) hr s _ hready
  have hb := hleaves.ready hn hr hgen.later hready
  rw [runByName, show ByName.block w.schema w.functions r.temps 0 r.body _ = some b from hrun]
  exact Locals.sink?_eq hb.sink

end Routine

/-- The routine of any tree, merged or not, is in single-assignment form, and run by the names that
its listing gives to temporaries and sinks it does what its program does without them. -/
theorem single_assignment {depth : Nat} {name : String} {n : Node} {r : Routine}
    (h : Routine.ofTree depth name n = .ok r) :
    Routine.SingleAssignment r ∧
      ∀ {ρ : Type} {schema : Schema ρ} {functions : Functions ρ} {p : Program ρ},
        Program.link schema functions r = .ok p → ∀ (input : ρ) (params : Params ρ),
          (∀ s : TextSink,
            r.runByName schema functions ⟨input, params⟩ s = some (p.run input params s)) ∧
          (∀ s : BinarySink,
            r.runByName schema functions ⟨input, params⟩ s = some (p.run input params s)) ∧
          ∀ s : ObjectSink,
            r.runByName schema functions ⟨input, params⟩ s = some (p.run input params s) := by
  refine ⟨ofTree_singleAssignment h, fun {ρ} schema functions p hlink input params => ?_⟩
  have hsame := fun {τ : Type} [Sink τ] [LawfulSink τ] [IgnoresNull τ] (s : τ) =>
    (runByName_eq_walkAll h ⟨schema, functions, ⟨input, params⟩⟩ s).trans
      (congrArg some (Program.run_eq_walkAll h hlink input params s).symm)
  exact ⟨hsame, hsame, hsame⟩

/-- An address on one line, or else its city. The line has a sink of its own inside of that of the
alternatives. -/
theorem single_assignment_address :
    ∃ t n r p,
      Template.parse "$\x7baddress.\x7bcity, ' ', zip\x7d | address.city ?? 'none'\x7d" = .ok t ∧
      ofTemplate addressScope "text" t = .ok n ∧
      Routine.ofTree 32 "render" (compact n).1 = .ok r ∧
      Program.link addressSchema .empty r = .ok p ∧
      r.temps = ["input", "field_0", "field_1", "field_2", "field_3", "field_4"] ∧
      r.walk.filterMap Stmt.sink? = [1, 2] ∧ Routine.SingleAssignment r ∧
      ∀ s : TextSink,
        r.runByName addressSchema .empty ⟨(), .empty⟩ s = some (p.run () .empty s) := by
  have hok :
      (Template.parse "$\x7baddress.\x7bcity, ' ', zip\x7d | address.city ?? 'none'\x7d").toOption.any
        fun t => (ofTemplate addressScope "text" t).toOption.any fun n =>
          (Routine.ofTree 32 "render" (compact n).1).toOption.any fun r =>
            (Program.link addressSchema .empty r).toBool &&
            r.temps == ["input", "field_0", "field_1", "field_2", "field_3", "field_4"] &&
            r.walk.filterMap Stmt.sink? == [1, 2] := by
    decide +kernel
  simp only [Option.any_eq_true, Bool.and_eq_true, beq_iff_eq] at hok
  obtain ⟨t, hparse, n, htree, r, hr, ⟨hlink, htemps⟩, hsinks⟩ := hok
  obtain ⟨p, hp⟩ := eq_ok_of_toBool hlink
  obtain ⟨hform, hruns⟩ := single_assignment (eq_ok_of_toOption hr)
  exact ⟨t, n, r, p, eq_ok_of_toOption hparse, eq_ok_of_toOption htree, eq_ok_of_toOption hr, hp,
    htemps, hsinks, hform, (hruns hp () .empty).1⟩

end PathTemplate
