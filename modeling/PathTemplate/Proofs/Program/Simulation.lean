import PathTemplate.Proofs.Program.Execution
import PathTemplate.Proofs.Tree.Compaction
import PathTemplate.Proofs.Tree.Resolved

namespace PathTemplate

open PathTemplate.Tree PathTemplate.Routine

variable {ρ σ : Type}

theorem emit_checkFor [Sink σ] (w : World ρ) (cur ty : FlaggedTy) (v : Value ρ)
    (default : Option Fallback) (span : Span) (children otherwise : List Node) (s : σ) :
    Run.emit w.env v (checkFor cur default) s =
      Tree.walk w cur v (.mk (.print default) ty span children otherwise) s := by
  unfold checkFor Tree.walk checked
  cases hp : cur.ty.isPrimitive && !cur.isFlagged <;> cases default <;> cases v <;>
    simp [Run.emit, Value.isNull, World.computed?]

theorem walk_guard [Sink σ] (w : World ρ) {kind : NodeKind} {guard : GuardKind}
    (h : guardOf? kind = some guard) (cur ty : FlaggedTy) (v : Value ρ) (span : Span)
    (children otherwise : List Node) (s : σ) :
    Tree.walk w cur v (.mk kind ty span children otherwise) s =
      if v.isNull then walkAll w cur v otherwise s else walkAll w ty v children s := by
  cases kind <;> simp only [guardOf?, reduceCtorEq] at h
  all_goals simp only [Tree.walk, World.computed?]

namespace Link

variable {sc : Scope ρ}

theorem block_cons_errors {st : Stmt} {rest : List Stmt} (h : (block sc (st :: rest)).2 = []) :
    (stmt sc st).2 = [] ∧ (block sc rest).2 = [] := by
  simpa [block] using h

theorem block_append_errors {a b : List Stmt} (h : (block sc (a ++ b)).2 = []) :
    (block sc a).2 = [] ∧ (block sc b).2 = [] := by
  simpa [block_append] using h

theorem blocks_cons_errors {body : List Stmt} {more : List (List Stmt)}
    (h : (blocks sc (body :: more)).2 = []) : (block sc body).2 = [] ∧ (blocks sc more).2 = [] := by
  simpa [blocks] using h

end Link

namespace Routine

variable [Sink σ] {sc : Link.Scope ρ} (env : Run.Env ρ)

theorem first_eq_firstWritten {w : World ρ} {cur : FlaggedTy} {v : Value ρ} {n : Node}
    {ns : List Node} {body : List Stmt} {more : List (List Stmt)} {regs : Run.Registers ρ}
    {inner : σ}
    (hbody : (exec sc env body regs (Sink.reset inner)).2 = Tree.walk w cur v n (Sink.reset inner))
    (hmore : ∀ inner' : σ, (Run.first env (Link.blocks sc more).1
      (exec sc env body regs (Sink.reset inner)).1 inner').2 = firstWritten w cur v ns inner') :
    (Run.first env (Link.blocks sc (body :: more)).1 regs inner).2 =
      firstWritten w cur v (n :: ns) inner := by
  rw [first_cons]
  simp only [firstWritten, ← hbody]
  split
  · exact hmore _
  · rfl

mutual

/-- The value of the context is in its register, and there are registers for all temporaries. -/
theorem Generates.simulates [LawfulSink σ] {cx : Context} {n : Node} {st st' : Supply}
    {stmts : List Stmt} : Generates cx n st stmts st' →
      ∀ (regs : Run.Registers ρ) (s : σ), cx.value < st.next →
      st'.next ≤ regs.length → (Link.block sc stmts).2 = [] →
      (exec sc env stmts regs s).2 =
        Tree.walk ⟨sc.schema, sc.functions, env⟩ cx.ty (Run.read regs cx.value) n s
  | .literal, regs, s, _, _, _ => by
    rw [exec_text]
    simp only [Tree.walk, World.computed?]
  | .compute computes below, regs, s, hv, hr, hl => by
    obtain ⟨hst, hrest⟩ := Link.block_cons_errors hl
    obtain ⟨v, hcv, he⟩ := exec_computed sc env regs s computes hst
    have hle := below.next_le
    rw [Supply.next_temp] at hle
    have h := below.simulates (regs.set st.next v) s (Nat.lt_succ_self _)
      (by rwa [List.length_set]) hrest
    rw [exec_cons, he, h]
    simp only [Tree.walk, hcv, Context.descend,
      Run.read_set (show st.next < regs.length by omega)]
  | .guard guards below aside, regs, s, hv, hr, hl => by
    obtain ⟨hp, ha⟩ : (Link.block sc _).2 = [] ∧ (Link.block sc _).2 = [] := by
      simp only [Link.block, Link.stmt, List.append_eq_nil_iff] at hl
      exact ⟨hl.1.1.2, hl.1.2⟩
    have hle := aside.next_le
    have hb := below.simulates regs s hv (by omega) hp
    have ho := aside.simulates regs s (Nat.lt_of_lt_of_le hv below.next_le) hr ha
    rw [exec_ifPresent, walk_guard _ guards]
    split
    · exact ho
    · exact hb
  | .orFallback below aside, regs, s, hv, hr, hl => by
    obtain ⟨hb, ha⟩ : (Link.blocks sc _).2 = [] ∧ (Link.block sc _).2 = [] := by
      simpa [Link.block, Link.stmt] using hl
    have hle := aside.next_le
    have hkeep := below.keeps sc env regs (Sink.fresh s)
    have hfirst := below.simulates regs (Sink.fresh s) hv (by omega) hb
    have ho := fun regs hr => aside.simulates regs s (Nat.lt_of_lt_of_le hv below.next_le) hr ha
    have hvalue := hkeep.below cx.value hv
    simp only [Context.into, Context.deeper] at hfirst ho
    rw [exec_firstNonEmpty]
    simp only [Tree.walk, World.computed?, ← hfirst]
    split
    next h => simp only [h]
    next h =>
      rw [h] at hkeep hvalue
      rw [ho _ (by rwa [hkeep.length]), hvalue]
      simp only [h]
  | .concatenation below, regs, s, hv, hr, hl => by
    have h := below.simulates regs (Sink.fresh s) hv hr (by simpa [Link.block, Link.stmt] using hl)
    simp only [exec_capture, Tree.walk, World.computed?]
    rw [h]
    rfl
  | .print, regs, s, _, _, _ => emit_checkFor ⟨sc.schema, sc.functions, env⟩ ..
  | .default, regs, s, _, _, _ => by
    rw [exec_emitDefault]
    simp only [Tree.walk, World.computed?]
  | .notFound below, regs, s, hv, hr, hl => by
    have h := below.simulates regs s hv hr (Link.block_cons_errors hl).2
    rw [exec_cons, exec_missing, h]
    simp only [Tree.walk, World.computed?]
  | .root below, regs, s, hv, hr, hl => by
    rw [below.simulates regs s hv hr hl]
    simp only [Tree.walk, World.computed?]

theorem GeneratesAll.simulates [LawfulSink σ] {cx : Context} {ns : List Node}
    {st st' : Supply} {stmts : List Stmt} : GeneratesAll cx ns st stmts st' →
      ∀ (regs : Run.Registers ρ) (s : σ), cx.value < st.next → st'.next ≤ regs.length →
      (Link.block sc stmts).2 = [] →
      (exec sc env stmts regs s).2 =
        walkAll ⟨sc.schema, sc.functions, env⟩ cx.ty (Run.read regs cx.value) ns s
  | .nil, _, _, _, _, _ => rfl
  | .cons first rest, regs, s, hv, hr, hl => by
    obtain ⟨hf, hm⟩ := Link.block_append_errors hl
    have hkeep := first.keeps sc env regs s
    have hle := rest.next_le
    have h := first.simulates regs s hv (by omega) hf
    have h' := fun regs s hr =>
      rest.simulates regs s (Nat.lt_of_lt_of_le hv first.next_le) hr hm
    rw [exec_append, h' _ _ (by rwa [hkeep.length]), hkeep.below _ hv, h]
    rfl

theorem GeneratesEach.simulates [LawfulSink σ] {cx : Context} {ns : List Node}
    {st st' : Supply} {bodies : List (List Stmt)} : GeneratesEach cx ns st bodies st' →
      ∀ (regs : Run.Registers ρ) (inner : σ), cx.value < st.next → st'.next ≤ regs.length →
      (Link.blocks sc bodies).2 = [] →
      (Run.first env (Link.blocks sc bodies).1 regs inner).2 =
        firstWritten ⟨sc.schema, sc.functions, env⟩ cx.ty (Run.read regs cx.value) ns inner
  | .nil, _, _, _, _, _ => rfl
  | .concatenation first rest, regs, inner, hv, hr, hl => by
    obtain ⟨hf, hm⟩ := Link.blocks_cons_errors hl
    have hle := rest.next_le
    have h := first.simulates regs (Sink.reset inner) hv (by omega) hf
    have hkeep := first.keeps sc env regs (Sink.reset inner)
    refine first_eq_firstWritten env ?_ fun inner' => ?_
    · -- The alternative is written in place, without a sink of its own.
      rw [walk_concatenation]
      exact h
    · rw [rest.simulates _ inner' (Nat.lt_of_lt_of_le hv first.next_le) (by rwa [hkeep.length]) hm,
        hkeep.below _ hv]
  | .other first rest, regs, inner, hv, hr, hl => by
    obtain ⟨hf, hm⟩ := Link.blocks_cons_errors hl
    have hle := rest.next_le
    have hkeep := first.keeps sc env regs (Sink.reset inner)
    refine first_eq_firstWritten env
      (first.simulates regs (Sink.reset inner) hv (by omega) hf) fun inner' => ?_
    rw [rest.simulates _ inner' (Nat.lt_of_lt_of_le hv first.next_le) (by rwa [hkeep.length]) hm,
      hkeep.below _ hv]

end

end Routine

/-- A program writes what its tree means, whatever the sink holds before. -/
theorem Program.run_eq_walkAll [Sink σ] [LawfulSink σ] {schema : Schema ρ}
    {functions : Functions ρ} {depth : Nat} {name : String} {n : Node} {r : Routine}
    {p : Program ρ} (hr : Routine.ofTree depth name n = .ok r)
    (hp : Program.link schema functions r = .ok p) (input : ρ) (params : Params ρ) (s : σ) :
    p.run input params s =
      walkAll ⟨schema, functions, ⟨input, params⟩⟩ n.ty (.record input) n.children s := by
  obtain ⟨st, hgen, htemps, -⟩ := ofTree_generates hr
  obtain ⟨hl, hlen, hread⟩ := Program.start_of_link hp input
  have h := hgen.simulates ⟨input, params⟩ _ s (Nat.succ_pos _) (htemps ▸ hlen) hl
  rw [Program.run_eq_exec hp, h, hread]

theorem walk_root [Sink σ] (w : World ρ) (cur : FlaggedTy) (v : Value ρ) (input sink : String)
    (children : List Node) (s : σ) :
    Tree.walk w cur v (.root input sink children) s = walkAll w cur v children s := by
  simp only [Node.root, Tree.walk, World.computed?]

/-- The program of a tree that templates resolve to, merged or not, writes the walk of the tree from
the input into every kind of sink. -/
theorem run_eq_walk {scope : Tree.Scope ρ} {sink : String} {template : Template} {tree n : Node}
    {schema : Schema ρ} {functions : Functions ρ} {depth : Nat} {name : String} {r : Routine}
    {p : Program ρ} (hres : Tree.ofTemplate scope sink template = .ok tree)
    (hn : n = tree ∨ n = (Tree.compact tree).1) (hgen : Routine.ofTree depth name n = .ok r)
    (hlink : Program.link schema functions r = .ok p) (input : ρ) (params : Params ρ) :
    (∀ s : TextSink, p.run input params s =
      Tree.walk ⟨schema, functions, ⟨input, params⟩⟩ n.ty (.record input) n s) ∧
    (∀ s : BinarySink, p.run input params s =
      Tree.walk ⟨schema, functions, ⟨input, params⟩⟩ n.ty (.record input) n s) ∧
    ∀ s : ObjectSink, p.run input params s =
      Tree.walk ⟨schema, functions, ⟨input, params⟩⟩ n.ty (.record input) n s := by
  obtain ⟨-, children, rfl, -⟩ := Tree.ofTemplate_typed hres
  obtain ⟨children', rfl⟩ : ∃ children', n = .root scope.input sink children' := by
    rcases hn with rfl | rfl
    · exact ⟨children, rfl⟩
    · exact ⟨(compactList children).1, compact_root ..⟩
  have h := fun {τ : Type} [Sink τ] [LawfulSink τ] (s : τ) =>
    Program.run_eq_walkAll hgen hlink input params s
  simp only [walk_root]
  exact ⟨h, h, h⟩

def person : Shape String :=
  ⟨"Person", "Person", [⟨"name", .field, .plain .string, fun r => .string r⟩]⟩

def greeting : Template :=
  let name : Chain := .mk (.name ⟨"name", .nowhere⟩) [] none none .nowhere
  ⟨[.text "Hello " .nowhere, .expr (.mk [name] none .nowhere)]⟩

theorem run_eq_walk_greeting : ∃ tree r p,
    Tree.ofTemplate ⟨⟨[person]⟩, .empty, .strict, "Person"⟩ "text" greeting = .ok tree ∧
    Routine.ofTree 8 "greet" tree = .ok r ∧ Program.link ⟨[person]⟩ .empty r = .ok p ∧
    ∀ s : TextSink, p.run "Ada" .empty s =
      Tree.walk ⟨⟨[person]⟩, .empty, ⟨"Ada", .empty⟩⟩ tree.ty (.record "Ada") tree s := by
  obtain ⟨tree, r, p, ht, hr, hp⟩ : ∃ tree r p,
      Tree.ofTemplate ⟨⟨[person]⟩, .empty, .strict, "Person"⟩ "text" greeting = .ok tree ∧
      Routine.ofTree 8 "greet" tree = .ok r ∧ Program.link ⟨[person]⟩ .empty r = .ok p :=
    ⟨_, _, _, rfl, rfl, rfl⟩
  exact ⟨tree, r, p, ht, hr, hp, (run_eq_walk ht (.inl rfl) hr hp "Ada" .empty).1⟩

end PathTemplate
