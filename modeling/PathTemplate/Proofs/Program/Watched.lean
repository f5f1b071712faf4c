import PathTemplate.Proofs.Program.Trace
import PathTemplate.Proofs.Value.Conformance

/-!
Runs into sinks that notice maps and records. A trace says which values the statements of a run hand
over; a watched sink is spoiled by the first one that has no written form, in whatever inner sink it
ends up. The two agree: a run whose trace is clean does not spoil its sink.
-/

namespace PathTemplate

variable {ρ σ : Type}

/-- A sink that is spoiled by every value without a written form that it takes. -/
structure Watched (σ : Type) where
  sink : σ
  spoiled : Bool

namespace Watched

/-- A spoiled sink does not count as empty, so that it is spliced into the outer one. -/
instance [Sink σ] : Sink (Watched σ) where
  kind := Sink.kind σ
  fresh w := ⟨Sink.fresh w.sink, w.spoiled⟩
  accept w v := ⟨Sink.accept w.sink v, w.spoiled || v.isUnwritable⟩
  splice w inner := ⟨Sink.splice w.sink inner.sink, w.spoiled || inner.spoiled⟩
  isEmpty w := Sink.isEmpty w.sink && !w.spoiled
  bytes w := Sink.bytes w.sink
  reset w := ⟨Sink.reset w.sink, w.spoiled⟩
  endRecord force w := ⟨Sink.endRecord force w.sink, w.spoiled⟩

/-- The sink as it is, unspoiled. -/
def of (s : σ) : Watched σ := ⟨s, false⟩

variable [Sink σ]

theorem accept_of {v : Value ρ} (h : v.isUnwritable = false) (s : σ) :
    Sink.accept (of s) v = of (Sink.accept s v) := by
  simp [of, Sink.accept, h]

theorem fresh_of (s : σ) : Sink.fresh (of s) = of (Sink.fresh s) := rfl

theorem reset_of (s : σ) : Sink.reset (of s) = of (Sink.reset s) := rfl

theorem splice_of (s inner : σ) : Sink.splice (of s) (of inner) = of (Sink.splice s inner) := rfl

theorem isEmpty_of (s : σ) : Sink.isEmpty (of s) = Sink.isEmpty s := Bool.and_true _

theorem foldl_of {vs : List (Value ρ)} (h : ∀ v ∈ vs, v.isUnwritable = false) (s : σ) :
    vs.foldl Sink.accept (of s) = of (vs.foldl Sink.accept s) := by
  induction vs generalizing s with
  | nil => rfl
  | cons v vs ih =>
    rw [List.foldl_cons, accept_of (h v List.mem_cons_self)]
    exact ih (fun v hv => h v (List.mem_cons_of_mem _ hv)) _

end Watched

section

variable [Sink σ] (sc : Link.Scope ρ) (env : Run.Env ρ)

def WritesForms (visit : Visit ρ) : Prop := ∀ v ∈ accepted env visit, v.isUnwritable = false

theorem visits_self (st : Stmt) (regs : Run.Registers ρ) (s : σ) :
    (st, regs) ∈ visits sc env st regs s := by
  cases st <;> simp [visits]

mutual

theorem exec_watched (st : Stmt) (regs : Run.Registers ρ) (s : σ)
    (h : ∀ visit ∈ visits sc env st regs s, WritesForms env visit) :
    exec sc env [st] regs (Watched.of s) =
      ((exec sc env [st] regs s).1, .of (exec sc env [st] regs s).2) := by
  cases hst : st.isCompound with
  | false =>
    have hself := h _ (visits_self sc env st regs s)
    rw [← exec_registers sc env hst regs (Watched.of s) s, exec_eq_foldl sc env hst,
      ← Watched.foldl_of hself, ← exec_eq_foldl sc env hst]
  | true =>
    cases st with
    | ifPresent guard value present absent =>
      rw [visits] at h
      replace h := (List.forall_mem_cons.mp h).2
      simp only [exec_ifPresent]
      split at h
      next hn => simpa only [if_pos hn] using execAll_watched absent regs s h
      next hn => simpa only [if_neg hn] using execAll_watched present regs s h
    | capture sink parent body =>
      rw [visits] at h
      have hb := execAll_watched body regs (Sink.fresh s) (List.forall_mem_cons.mp h).2
      rw [exec_capture, exec_capture, Watched.fresh_of, hb, Watched.splice_of]
    | firstNonEmpty sink parent bodies absent =>
      rw [visits] at h
      obtain ⟨hb, ha⟩ := List.forall_mem_append.mp (List.forall_mem_cons.mp h).2
      have hfirst := first_watched bodies regs (Sink.fresh s) hb
      rw [exec_firstNonEmpty, exec_firstNonEmpty, Watched.fresh_of, hfirst]
      split at ha
      next inner heq => simp only [heq, Option.map_some, Watched.splice_of]
      next regs' heq =>
        simp only [heq, Option.map_none]
        exact execAll_watched absent regs' s ha
    | _ => simp [Stmt.isCompound] at hst

theorem execAll_watched (stmts : List Stmt) (regs : Run.Registers ρ) (s : σ)
    (h : ∀ visit ∈ visitsAll sc env stmts regs s, WritesForms env visit) :
    exec sc env stmts regs (Watched.of s) =
      ((exec sc env stmts regs s).1, .of (exec sc env stmts regs s).2) := by
  cases stmts with
  | nil => rfl
  | cons st rest =>
    rw [visitsAll] at h
    obtain ⟨hst, hrest⟩ := List.forall_mem_append.mp h
    rw [exec_cons, exec_watched st regs s hst]
    rw [execAll_watched rest _ _ hrest, ← exec_cons]

theorem first_watched (bodies : List (List Stmt)) (regs : Run.Registers ρ) (inner : σ)
    (h : ∀ visit ∈ visitsEach sc env bodies regs inner, WritesForms env visit) :
    Run.first env (Link.blocks sc bodies).1 regs (Watched.of inner) =
      ((Run.first env (Link.blocks sc bodies).1 regs inner).1,
        (Run.first env (Link.blocks sc bodies).1 regs inner).2.map .of) := by
  cases bodies with
  | nil => rfl
  | cons body rest =>
    rw [visitsEach] at h
    obtain ⟨hb, hr⟩ := List.forall_mem_append.mp h
    rw [first_cons, first_cons, Watched.reset_of, execAll_watched body regs _ hb]
    simp only [Watched.isEmpty_of]
    split at hr
    next he =>
      simp only [if_pos he]
      exact first_watched rest _ _ hr
    next he =>
      simp only [if_neg he]
      rfl

end

end

end PathTemplate
