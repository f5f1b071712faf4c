import PathTemplate.Program.Link
import PathTemplate.Program.Run
import PathTemplate.Proofs.Routine.Generation
import PathTemplate.Proofs.Tree.Meaning

namespace PathTemplate

open PathTemplate.Tree PathTemplate.Routine

variable {ρ σ : Type}

namespace Link

variable {sc : Scope ρ}

theorem block_append (a b : List Stmt) :
    block sc (a ++ b) = ((block sc a).1 ++ (block sc b).1, (block sc a).2 ++ (block sc b).2) := by
  induction a with
  | nil => simp [block]
  | cons st rest ih => simp [block, ih]

theorem bind_eq_ok_iff {a : Access} {b : Bound ρ} :
    bind sc a = .ok b ↔
      (∃ name, a = .key name ∧ b = .key name) ∨
        ∃ m, memberAt? sc.schema a = some m ∧ b = .member m.read := by
  cases a with
  | key name => simp [bind, memberAt?, eq_comm]
  | field owner name =>
    simp only [bind, memberAt?]
    cases h : (sc.schema.shape? owner).bind (·.field? name) <;> simp [eq_comm]
  | method owner name =>
    simp only [bind, memberAt?]
    cases h : (sc.schema.shape? owner).bind (·.method? name) <;> simp [eq_comm]

theorem stepInto_bind {a : Access} {b : Bound ρ} (h : bind sc a = .ok b) (v : Value ρ) :
    Run.stepInto v b = access sc.schema v a := by
  rcases bind_eq_ok_iff.mp h with ⟨name, rfl, rfl⟩ | ⟨m, hm, rfl⟩
  · cases v <;> rfl
  · cases a with
    | key name => simp [memberAt?] at hm
    | field | method => cases v <;> simp [Run.stepInto, access, hm]

theorem foldl_bindAll {steps : List Access} (h : (bindAll sc steps).2 = []) (v : Value ρ) :
    (bindAll sc steps).1.foldl Run.stepInto v = steps.foldl (access sc.schema) v := by
  induction steps generalizing v with
  | nil => rfl
  | cons a rest ih =>
    unfold bindAll at h ⊢
    cases hb : bind sc a with
    | error e => simp [hb] at h
    | ok b =>
      simp only [hb] at h
      simp only [List.foldl_cons, stepInto_bind hb, ih h]

theorem argument_eq {a : Argument} (h : (argument sc a).2 = []) (env : Run.Env ρ) :
    Run.argument env (argument sc a).1 = World.argument ⟨sc.schema, sc.functions, env⟩ a := by
  cases a with
  | constant | null => rfl
  | path steps => exact foldl_bindAll h _

theorem arguments_eq {args : List Argument} (h : (arguments sc args).2 = []) (env : Run.Env ρ) :
    (arguments sc args).1.map (Run.argument env) =
      args.map (World.argument ⟨sc.schema, sc.functions, env⟩) := by
  simp only [arguments, List.flatMap_map, List.flatMap_eq_nil_iff] at h
  simp only [arguments, List.map_map]
  exact List.map_congr_left fun a ha => argument_eq (h a ha) env

end Link

theorem Program.link_eq_ok {schema : Schema ρ} {functions : Functions ρ} {r : Routine}
    {p : Program ρ} : Program.link schema functions r = .ok p ↔
      (schema.shape? r.input).isSome ∧
      (Link.block ⟨schema, functions, r.temps.length⟩ r.body).2 = [] ∧
      p = ⟨r.name, r.input, r.sink, max r.temps.length 1,
        (Link.block ⟨schema, functions, r.temps.length⟩ r.body).1, r.listing⟩ := by
  unfold Program.link
  cases hs : (schema.shape? r.input).isSome with
  | false => simp
  | true =>
    cases he : (Link.block ⟨schema, functions, r.temps.length⟩ r.body).2 with
    | nil => simp [he, eq_comm]
    | cons e es => simp [he]

theorem Run.block_append [Sink σ] (env : Run.Env ρ) (a b : List (Op ρ)) (regs : Run.Registers ρ)
    (s : σ) : Run.block env (a ++ b) regs s =
      Run.block env b (Run.block env a regs s).1 (Run.block env a regs s).2 := by
  induction a generalizing regs s with
  | nil => rfl
  | cons o rest ih => simp only [List.cons_append, Run.block, ih]

/-- Running statements, as the linker binds them. -/
def exec [Sink σ] (sc : Link.Scope ρ) (env : Run.Env ρ) (stmts : List Stmt)
    (regs : Run.Registers ρ) (s : σ) : Run.Registers ρ × σ :=
  Run.block env (Link.block sc stmts).1 regs s

section Equations

variable [Sink σ] (sc : Link.Scope ρ) (env : Run.Env ρ) (regs : Run.Registers ρ) (s : σ)

theorem exec_append (a b : List Stmt) :
    exec sc env (a ++ b) regs s =
      exec sc env b (exec sc env a regs s).1 (exec sc env a regs s).2 := by
  simp only [exec, Link.block_append, Run.block_append]

theorem exec_cons (st : Stmt) (rest : List Stmt) :
    exec sc env (st :: rest) regs s =
      exec sc env rest (exec sc env [st] regs s).1 (exec sc env [st] regs s).2 :=
  exec_append sc env regs s [st] rest

theorem exec_text (text : String) :
    exec sc env [.text text] regs s = (regs, Sink.accept s (Value.string text : Value ρ)) := rfl

theorem exec_emitDefault (value : Fallback) :
    exec sc env [.emitDefault value] regs s = (regs, Run.fallback env value s) := rfl

theorem exec_missing (name : String) : exec sc env [.missing name] regs s = (regs, s) := rfl

theorem exec_ifPresent (guard : GuardKind) (value : Nat) (present absent : List Stmt) :
    exec sc env [.ifPresent guard value present absent] regs s =
      if (Run.read regs value).isNull then exec sc env absent regs s
      else exec sc env present regs s := by
  simp only [exec, Link.block, Link.stmt, Option.toList, List.append_nil, Run.block, Run.op]

theorem exec_capture (sink parent : Nat) (body : List Stmt) :
    exec sc env [.capture sink parent body] regs s =
      ((exec sc env body regs (Sink.fresh s)).1,
        Sink.splice s (exec sc env body regs (Sink.fresh s)).2) := rfl

theorem exec_firstNonEmpty (sink parent : Nat) (bodies : List (List Stmt)) (absent : List Stmt) :
    exec sc env [.firstNonEmpty sink parent bodies absent] regs s =
      match Run.first env (Link.blocks sc bodies).1 regs (Sink.fresh s) with
      | (regs, some inner) => (regs, Sink.splice s inner)
      | (regs, none) => exec sc env absent regs s := rfl

theorem first_cons (body : List Stmt) (more : List (List Stmt)) :
    Run.first env (Link.blocks sc (body :: more)).1 regs s =
      let r := exec sc env body regs (Sink.reset s)
      if Sink.isEmpty r.2 then Run.first env (Link.blocks sc more).1 r.1 r.2
      else (r.1, some r.2) := by
  simp only [Link.blocks, Run.first]
  rfl

variable {dst src : Nat} {ty : Ty} {kind : NodeKind} {temp : TempKind} {stmt : Stmt}

theorem exec_computing (h : computing? dst src ty kind = some (temp, stmt)) :
    exec sc env [stmt] regs s = (regs, s) ∨
      ∃ v, exec sc env [stmt] regs s = (regs.set dst v, s) := by
  have hload : ∀ access, exec sc env [.load dst src access] regs s = (regs, s) ∨
      ∃ v, exec sc env [.load dst src access] regs s = (regs.set dst v, s) := by
    intro access
    cases hb : Link.bind sc access with
    | error e => exact .inl (by simp [exec, Link.block, Link.stmt, hb, Run.block])
    | ok b => exact .inr ⟨_, by simp [exec, Link.block, Link.stmt, hb, Run.block, Run.op]; rfl⟩
  cases kind with
  | field | method | mapAccess =>
    obtain ⟨rfl, rfl⟩ : _ ∧ _ := by simpa [computing?] using h
    exact hload _
  | math | cast =>
    obtain ⟨rfl, rfl⟩ : _ ∧ _ := by simpa [computing?] using h
    exact .inr ⟨_, rfl⟩
  | function name args =>
    obtain ⟨rfl, rfl⟩ : _ ∧ _ := by simpa [computing?] using h
    cases hf : sc.functions.lookup? name args.length with
    | none => exact .inl (by simp [exec, Link.block, Link.stmt, hf, Run.block])
    | some f => exact .inr ⟨_, by simp [exec, Link.block, Link.stmt, hf, Run.block, Run.op]; rfl⟩
  | _ => simp [computing?] at h

/-- Once everything in it is bound, the value is the one the tree asks for. -/
theorem exec_computed (h : computing? dst src ty kind = some (temp, stmt))
    (hl : (Link.stmt sc stmt).2 = []) :
    ∃ v, World.computed? ⟨sc.schema, sc.functions, env⟩ ty (Run.read regs src) kind = some v ∧
      exec sc env [stmt] regs s = (regs.set dst v, s) := by
  have hload : ∀ access, (Link.stmt sc (.load dst src access)).2 = [] →
      exec sc env [.load dst src access] regs s =
        (regs.set dst (Tree.access sc.schema (Run.read regs src) access), s) := by
    intro access hl
    cases hb : Link.bind sc access with
    | error e => simp [Link.stmt, hb] at hl
    | ok b =>
      rw [← Link.stepInto_bind hb]
      simp [exec, Link.block, Link.stmt, hb, Run.block, Run.op]
  cases kind with
  | field | method | mapAccess =>
    obtain ⟨rfl, rfl⟩ : _ ∧ _ := by simpa [computing?] using h
    exact ⟨_, rfl, hload _ hl⟩
  | math | cast =>
    obtain ⟨rfl, rfl⟩ : _ ∧ _ := by simpa [computing?] using h
    exact ⟨_, rfl, rfl⟩
  | function name args =>
    obtain ⟨rfl, rfl⟩ : _ ∧ _ := by simpa [computing?] using h
    cases hf : sc.functions.lookup? name args.length with
    | none => simp [Link.stmt, hf] at hl
    | some f =>
      have ha : (Link.arguments sc args).2 = [] := by
        simp only [Link.stmt, hf, List.append_eq_nil_iff] at hl
        exact hl.2
      refine ⟨_, rfl, ?_⟩
      simp [exec, Link.block, Link.stmt, hf, Run.block, Run.op, World.call,
        Link.arguments_eq ha env]
  | _ => simp [computing?] at h

end Equations

/-- Registers that agree below a bound. -/
structure Keeps (bound : Nat) (regs regs' : Run.Registers ρ) : Prop where
  length : regs'.length = regs.length
  below : ∀ i < bound, Run.read regs' i = Run.read regs i

namespace Keeps

variable {bound : Nat} {regs regs' regs'' : Run.Registers ρ}

theorem refl : Keeps bound regs regs := ⟨rfl, fun _ _ => rfl⟩

theorem trans (h : Keeps bound regs regs') (h' : Keeps bound regs' regs'') :
    Keeps bound regs regs'' :=
  ⟨h'.length.trans h.length, fun i hi => (h'.below i hi).trans (h.below i hi)⟩

theorem mono {less : Nat} (h : Keeps bound regs regs') (hle : less ≤ bound) :
    Keeps less regs regs' :=
  ⟨h.length, fun i hi => h.below i (Nat.lt_of_lt_of_le hi hle)⟩

theorem set {dst : Nat} (h : bound ≤ dst) (v : Value ρ) : Keeps bound regs (regs.set dst v) := by
  refine ⟨List.length_set, fun i hi => ?_⟩
  have hne : dst ≠ i := by omega
  simp [Run.read, List.getD_eq_getElem?_getD, hne]

end Keeps

theorem Run.read_set {regs : Run.Registers ρ} {i : Nat} (h : i < regs.length) (v : Value ρ) :
    Run.read (regs.set i v) i = v := by
  simp [Run.read, List.getD_eq_getElem?_getD, h]

theorem Program.run_eq_exec [Sink σ] {schema : Schema ρ} {functions : Functions ρ} {r : Routine}
    {p : Program ρ} (h : Program.link schema functions r = .ok p) (input : ρ) (params : Params ρ)
    (s : σ) : p.run input params s =
      (exec ⟨schema, functions, r.temps.length⟩ ⟨input, params⟩ r.body
        (Run.start p.registers input) s).2 := by
  obtain ⟨-, -, rfl⟩ := Program.link_eq_ok.mp h
  rfl

theorem Program.start_of_link {schema : Schema ρ} {functions : Functions ρ} {r : Routine}
    {p : Program ρ} (h : Program.link schema functions r = .ok p) (input : ρ) :
    (Link.block ⟨schema, functions, r.temps.length⟩ r.body).2 = [] ∧
      r.temps.length ≤ (Run.start p.registers input).length ∧
      Run.read (Run.start p.registers input) 0 = .record input := by
  obtain ⟨-, hl, rfl⟩ := Program.link_eq_ok.mp h
  refine ⟨hl, ?_, Run.read_set (by simp only [List.length_replicate]; omega) _⟩
  simp only [Run.start, List.length_set, List.length_replicate]
  omega

namespace Routine

mutual

theorem Generates.next_le {cx : Context} {n : Node} {st st' : Supply} {stmts : List Stmt} :
    Generates cx n st stmts st' → st.next ≤ st'.next
  | .literal | .print | .default => Nat.le_refl _
  | .compute _ below => by
    have h := below.next_le
    rw [Supply.next_temp] at h
    omega
  | .guard _ below aside => Nat.le_trans below.next_le aside.next_le
  | .orFallback below aside => Nat.le_trans below.next_le aside.next_le
  | .concatenation below | .notFound below | .root below => below.next_le

theorem GeneratesAll.next_le {cx : Context} {ns : List Node} {st st' : Supply}
    {stmts : List Stmt} : GeneratesAll cx ns st stmts st' → st.next ≤ st'.next
  | .nil => Nat.le_refl _
  | .cons first rest => Nat.le_trans first.next_le rest.next_le

theorem GeneratesEach.next_le {cx : Context} {ns : List Node} {st st' : Supply}
    {bodies : List (List Stmt)} : GeneratesEach cx ns st bodies st' → st.next ≤ st'.next
  | .nil => Nat.le_refl _
  | .concatenation first rest => Nat.le_trans first.next_le rest.next_le
  | .other first rest => Nat.le_trans first.next_le rest.next_le

end

section Frame

variable [Sink σ] (sc : Link.Scope ρ) (env : Run.Env ρ)

mutual

theorem Generates.keeps {cx : Context} {n : Node} {st st' : Supply} {stmts : List Stmt}
    (regs : Run.Registers ρ) (s : σ) :
    Generates cx n st stmts st' → Keeps st.next regs (exec sc env stmts regs s).1
  | .literal | .print | .default => .refl
  | .compute computes below => by
    rw [exec_cons]
    have hb := fun regs s => (below.keeps regs s).mono (Nat.le_succ st.next)
    rcases exec_computing sc env regs s computes with h | ⟨v, h⟩
    · rw [h]
      exact hb regs s
    · rw [h]
      exact .trans (.set (Nat.le_refl _) v) (hb _ s)
  | .guard _ below aside => by
    rw [exec_ifPresent]
    split
    · exact (aside.keeps regs s).mono below.next_le
    · exact below.keeps regs s
  | .orFallback below aside => by
    have hb := below.keeps regs (Sink.fresh s)
    rw [exec_firstNonEmpty]
    split
    next h => rwa [h] at hb
    next h =>
      rw [h] at hb
      exact .trans hb ((aside.keeps _ s).mono below.next_le)
  | .concatenation below => below.keeps regs (Sink.fresh s)
  | .notFound below => by
    rw [exec_cons, exec_missing]
    exact below.keeps regs s
  | .root below => below.keeps regs s

theorem GeneratesAll.keeps {cx : Context} {ns : List Node} {st st' : Supply} {stmts : List Stmt}
    (regs : Run.Registers ρ) (s : σ) :
    GeneratesAll cx ns st stmts st' → Keeps st.next regs (exec sc env stmts regs s).1
  | .nil => .refl
  | .cons first rest => by
    rw [exec_append]
    exact .trans (first.keeps regs s) ((rest.keeps _ _).mono first.next_le)

theorem GeneratesEach.keeps {cx : Context} {ns : List Node} {st st' : Supply}
    {bodies : List (List Stmt)} (regs : Run.Registers ρ) (inner : σ) :
    GeneratesEach cx ns st bodies st' →
      Keeps st.next regs (Run.first env (Link.blocks sc bodies).1 regs inner).1
  | .nil => .refl
  | .concatenation first rest => by
    rw [first_cons]
    dsimp only
    split
    · exact .trans (first.keeps regs _) ((rest.keeps _ _).mono first.next_le)
    · exact first.keeps regs _
  | .other first rest => by
    rw [first_cons]
    dsimp only
    split
    · exact .trans (first.keeps regs _) ((rest.keeps _ _).mono first.next_le)
    · exact first.keeps regs _

end

end Frame

end Routine

end PathTemplate
