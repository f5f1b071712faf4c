import PathTemplate.Proofs.Program.Execution

namespace PathTemplate

variable {ρ σ : Type}

/-- A statement and the registers it is carried out on. -/
abbrev Visit (ρ : Type) := Stmt × Run.Registers ρ

section

variable [Sink σ] (sc : Link.Scope ρ) (env : Run.Env ρ)

mutual

def visits : Stmt → Run.Registers ρ → σ → List (Visit ρ)
  | .ifPresent guard value present absent, regs, s =>
    (.ifPresent guard value present absent, regs) ::
      if (Run.read regs value).isNull then visitsAll absent regs s else visitsAll present regs s
  | .capture sink parent body, regs, s =>
    (.capture sink parent body, regs) :: visitsAll body regs (Sink.fresh s)
  | .firstNonEmpty sink parent bodies absent, regs, s =>
    (.firstNonEmpty sink parent bodies absent, regs) ::
      (visitsEach bodies regs (Sink.fresh s) ++
        match Run.first env (Link.blocks sc bodies).1 regs (Sink.fresh s) with
        | (_, some _) => []
        | (regs, none) => visitsAll absent regs s)
  | st, regs, _ => [(st, regs)]

def visitsAll : List Stmt → Run.Registers ρ → σ → List (Visit ρ)
  | [], _, _ => []
  | st :: rest, regs, s =>
    visits st regs s ++ visitsAll rest (exec sc env [st] regs s).1 (exec sc env [st] regs s).2

/-- Alternatives, up to the first that writes something into the emptied sink. -/
def visitsEach : List (List Stmt) → Run.Registers ρ → σ → List (Visit ρ)
  | [], _, _ => []
  | body :: rest, regs, inner =>
    visitsAll body regs (Sink.reset inner) ++
      if Sink.isEmpty (exec sc env body regs (Sink.reset inner)).2 then
        visitsEach rest (exec sc env body regs (Sink.reset inner)).1
          (exec sc env body regs (Sink.reset inner)).2
      else []

end

theorem visitsAll_append (a b : List Stmt) (regs : Run.Registers ρ) (s : σ) :
    visitsAll sc env (a ++ b) regs s =
      visitsAll sc env a regs s ++
        visitsAll sc env b (exec sc env a regs s).1 (exec sc env a regs s).2 := by
  induction a generalizing regs s with
  | nil => rfl
  | cons st rest ih =>
    rw [List.cons_append, visitsAll, visitsAll, ih, exec_cons sc env regs s st rest,
      List.append_assoc]

theorem visitsAll_singleton (st : Stmt) (regs : Run.Registers ρ) (s : σ) :
    visitsAll sc env [st] regs s = visits sc env st regs s := by
  simp [visitsAll]

theorem visits_computing {dst src : Nat} {ty : Ty} {kind : Tree.NodeKind}
    {temp : Routine.TempKind} {st : Stmt}
    (h : Routine.computing? dst src ty kind = some (temp, st)) (regs : Run.Registers ρ) (s : σ) :
    visits sc env st regs s = [(st, regs)] := by
  cases kind <;> simp only [Routine.computing?, Option.some.injEq, Prod.mk.injEq,
    reduceCtorEq] at h
  all_goals
    obtain ⟨rfl, rfl⟩ := h
    rfl

end

def Fallback.values (env : Run.Env ρ) : Fallback → List (Value ρ)
  | .constant c => [c.value]
  | .param name => (env.params.get? name).toList

def EmitCheck.values (env : Run.Env ρ) (v : Value ρ) : EmitCheck → List (Value ρ)
  | .default f => if v.isNull then f.values env else [v]
  | _ => [v]

/-- The values that a statement itself hands to the sink. -/
def accepted (env : Run.Env ρ) : Visit ρ → List (Value ρ)
  | (.text text, _) => [.string text]
  | (.emit value check, regs) => check.values env (Run.read regs value)
  | (.emitDefault f, _) => f.values env
  | _ => []

def Stmt.isCompound : Stmt → Bool
  | .ifPresent .. | .capture .. | .firstNonEmpty .. => true
  | _ => false

theorem fallback_eq_foldl [Sink σ] (env : Run.Env ρ) (f : Fallback) (s : σ) :
    Run.fallback env f s = (f.values env).foldl Sink.accept s := by
  cases f with
  | constant => rfl
  | param name =>
    cases h : env.params.get? name <;> simp [Run.fallback, Fallback.values, h]

theorem emit_eq_foldl [Sink σ] (env : Run.Env ρ) (v : Value ρ) (check : EmitCheck) (s : σ) :
    Run.emit env v check s = (check.values env v).foldl Sink.accept s := by
  cases check with
  | unchecked | skipAbsent => cases v <;> rfl
  | default f =>
    cases v with
    | null => exact fallback_eq_foldl env f s
    | _ => rfl

/-- What a simple statement does to the sink is to hand it these values, and nothing else. -/
theorem exec_eq_foldl [Sink σ] (sc : Link.Scope ρ) (env : Run.Env ρ) {st : Stmt}
    (h : st.isCompound = false) (regs : Run.Registers ρ) (s : σ) :
    (exec sc env [st] regs s).2 = (accepted env (st, regs)).foldl Sink.accept s := by
  cases st with
  | text | math | cast | missing => rfl
  | ifPresent | capture | firstNonEmpty => simp [Stmt.isCompound] at h
  | emitDefault f => exact fallback_eq_foldl env f s
  | emit value check => exact emit_eq_foldl env _ check s
  | load dst src access =>
    cases hb : Link.bind sc access <;>
      simp [exec, Link.block, Link.stmt, hb, Run.block, Run.op, accepted]
  | call dst name args =>
    cases hf : sc.functions.lookup? name args.length <;>
      simp [exec, Link.block, Link.stmt, hf, Run.block, Run.op, accepted]

theorem exec_registers {τ : Type} [Sink σ] [Sink τ] (sc : Link.Scope ρ) (env : Run.Env ρ)
    {st : Stmt} (h : st.isCompound = false) (regs : Run.Registers ρ) (s : σ) (s' : τ) :
    (exec sc env [st] regs s).1 = (exec sc env [st] regs s').1 := by
  cases st with
  | text | math | cast | missing | emit | emitDefault => rfl
  | ifPresent | capture | firstNonEmpty => simp [Stmt.isCompound] at h
  | load dst src access =>
    cases hb : Link.bind sc access <;>
      simp [exec, Link.block, Link.stmt, hb, Run.block, Run.op]
  | call dst name args =>
    cases hf : sc.functions.lookup? name args.length <;>
      simp [exec, Link.block, Link.stmt, hf, Run.block, Run.op]

end PathTemplate
