import PathTemplate.Proofs.Program.Execution

/-!
Programs add to the end of their sinks. What an operation does to the registers does not depend on
the sink at all, and what it writes is the same as what it writes into a fresh sink. So a program
may write apart or in place, as a whole and in each of its captures.
-/

namespace PathTemplate

open Sink LawfulSink

variable {ρ σ α β : Type}

/-- A step that answers something and adds to the end of its sink. Neither the answer nor what is
added depends on what the sink holds; only its settings count. -/
structure Extends [Sink σ] (f : σ → α × σ) : Prop where
  settings : ∀ s, fresh (f s).2 = fresh s
  apart : ∀ s, f s = ((f (fresh s)).1, splice s (f (fresh s)).2)

namespace Extends

variable [Sink σ]

theorem congr {f g : σ → α × σ} (hg : Extends g) (h : ∀ s, f s = g s) : Extends f := by
  have hfg : f = g := funext h
  rwa [hfg]

theorem of_appends {f : σ → σ} (h : Appends f) (a : α) : Extends fun s => (a, f s) :=
  ⟨h.settings, fun s => congrArg (Prod.mk a) (h.apart s)⟩

variable [LawfulSink σ]

theorem bind {f : σ → α × σ} {g : α → σ → β × σ} (hf : Extends f) (hg : ∀ a, Extends (g a)) :
    Extends fun s => g (f s).1 (f s).2 where
  settings s := by rw [(hg _).settings, hf.settings]
  apart s := by
    have hin : fresh (f (fresh s)).2 = fresh s := by rw [hf.settings, fresh_fresh]
    -- The second step is taken from what the first one added, in place and apart.
    rw [hf.apart s]
    dsimp only
    rw [(hg _).apart (splice s _), fresh_splice, (hg _).apart (f (fresh s)).2, hin, splice_assoc]

theorem capture (f : σ → α × σ) : Extends fun s => ((f (fresh s)).1, splice s (f (fresh s)).2) where
  settings s := fresh_splice s _
  apart s := by rw [fresh_fresh, ← splice_assoc, splice_fresh]

theorem orElse (first : σ → α × Option σ) {other : α → σ → α × σ} (h : ∀ a, Extends (other a)) :
    Extends fun s => match first (fresh s) with
      | (a, some inner) => (a, splice s inner)
      | (a, none) => other a s where
  settings s := by
    rcases first (fresh s) with ⟨a, _ | inner⟩
    · exact (h a).settings s
    · exact fresh_splice s inner
  apart s := by
    rw [fresh_fresh]
    rcases first (fresh s) with ⟨a, _ | inner⟩
    · exact (h a).apart s
    · dsimp only
      rw [← splice_assoc, splice_fresh]

end Extends

namespace Run

variable [Sink σ] [LawfulSink σ] (env : Env ρ)

theorem emit_extends (v : Value ρ) (check : EmitCheck) (regs : Registers ρ) :
    Extends fun s : σ => (regs, emit env v check s) := by
  have haccept : Extends fun s : σ => (regs, accept s v) := .of_appends (.accept v) regs
  cases check with
  | unchecked | skipAbsent => cases v <;> exact haccept
  | default f =>
    cases v with
    | null => exact .of_appends (Tree.fallback_appends env f) regs
    | _ => exact haccept

mutual

theorem op_extends : (o : Op ρ) → (regs : Registers ρ) → Extends fun s : σ => op env o regs s
  | .text text, regs => .of_appends (.accept (Value.string text : Value ρ)) regs
  | .load dst src step, regs =>
    .of_appends .id (regs.set dst (stepInto (read regs src) step))
  | .math dst src o operand ty, regs =>
    .of_appends .id (regs.set dst ((read regs src).math o operand ty))
  | .cast dst src target, regs => .of_appends .id (regs.set dst ((read regs src).cast target))
  | .call dst f args, regs => .of_appends .id (regs.set dst (f.body (args.map (argument env))))
  | .ifPresent value present otherwise, regs => by
    unfold op
    cases (read regs value).isNull with
    | true => exact block_extends otherwise regs
    | false => exact block_extends present regs
  | .emit value check, regs => emit_extends env (read regs value) check regs
  | .emitDefault value, regs => .of_appends (Tree.fallback_appends env value) regs
  | .capture body, regs => .capture (block env body regs)
  | .firstNonEmpty alternatives otherwise, regs => by
    refine (Extends.orElse (first env alternatives regs) (block_extends otherwise)).congr ?_
    intro s
    rw [op]
    rcases first env alternatives regs (fresh s) with ⟨regs, _ | inner⟩ <;> rfl

theorem block_extends : (ops : List (Op ρ)) → (regs : Registers ρ) →
    Extends fun s : σ => block env ops regs s
  | [], regs => .of_appends .id regs
  | o :: rest, regs => (op_extends o regs).bind (block_extends rest)

end

theorem op_capture (body : List (Op ρ)) (regs : Registers ρ) (s : σ) :
    op env (.capture body) regs s = block env body regs s :=
  ((block_extends env body regs).apart s).symm

end Run

mutual

/-- The operation with captures in it, and maybe itself, replaced by their bodies. -/
inductive Inlines : Op ρ → List (Op ρ) → Prop where
  | keep (o : Op ρ) : Inlines o [o]
  | inPlace {body body' : List (Op ρ)} (inside : InlinesAll body body') :
      Inlines (.capture body) body'
  | capture {body body' : List (Op ρ)} (inside : InlinesAll body body') :
      Inlines (.capture body) [.capture body']
  | ifPresent {value : Nat} {present present' otherwise otherwise' : List (Op ρ)}
      (inside : InlinesAll present present') (aside : InlinesAll otherwise otherwise') :
      Inlines (.ifPresent value present otherwise) [.ifPresent value present' otherwise']
  | firstNonEmpty {alternatives alternatives' : List (List (Op ρ))}
      {otherwise otherwise' : List (Op ρ)} (inside : InlinesEach alternatives alternatives')
      (aside : InlinesAll otherwise otherwise') :
      Inlines (.firstNonEmpty alternatives otherwise) [.firstNonEmpty alternatives' otherwise']

inductive InlinesAll : List (Op ρ) → List (Op ρ) → Prop where
  | nil : InlinesAll [] []
  | cons {o : Op ρ} {ops rest rest' : List (Op ρ)} (first : Inlines o ops)
      (others : InlinesAll rest rest') : InlinesAll (o :: rest) (ops ++ rest')

/-- Alternatives, each with captures in it replaced. -/
inductive InlinesEach : List (List (Op ρ)) → List (List (Op ρ)) → Prop where
  | nil : InlinesEach [] []
  | cons {body body' : List (Op ρ)} {rest rest' : List (List (Op ρ))}
      (first : InlinesAll body body') (others : InlinesEach rest rest') :
      InlinesEach (body :: rest) (body' :: rest')

end

section Same

variable [Sink σ] (env : Run.Env ρ)

mutual

theorem Inlines.same [LawfulSink σ] {o : Op ρ} {ops : List (Op ρ)} (regs : Run.Registers ρ)
    (s : σ) : Inlines o ops → Run.block env ops regs s = Run.op env o regs s
  | .keep o => rfl
  | .inPlace inside => by rw [Run.op_capture, inside.same]
  | .capture inside => by
    show Run.op env (.capture _) regs s = _
    rw [Run.op_capture, Run.op_capture, inside.same]
  | .ifPresent inside aside => by
    simp only [Run.block, Run.op, inside.same, aside.same]
  | .firstNonEmpty inside aside => by
    simp only [Run.block, Run.op, inside.same, aside.same]

theorem InlinesAll.same [LawfulSink σ] {ops ops' : List (Op ρ)} (regs : Run.Registers ρ) (s : σ) :
    InlinesAll ops ops' → Run.block env ops' regs s = Run.block env ops regs s
  | .nil => rfl
  | .cons first others => by
    rw [Run.block_append, first.same, others.same]
    rfl

theorem InlinesEach.same [LawfulSink σ] {bodies bodies' : List (List (Op ρ))}
    (regs : Run.Registers ρ) (inner : σ) :
    InlinesEach bodies bodies' → Run.first env bodies' regs inner = Run.first env bodies regs inner
  | .nil => rfl
  | .cons first others => by simp only [Run.first, first.same, others.same]

end

end Same

/-- A program adds the same to every sink of a kind, whether it writes in place or apart, and so does
each capture in it. -/
structure Program.Adds (σ : Type) [Sink σ] (p : Program ρ) (input : ρ) (params : Params ρ) :
    Prop where
  apart : ∀ s : σ, p.run input params s = splice s (p.run input params (fresh s))
  added : ∀ s s' : σ, fresh s = fresh s' → ∃ more,
    p.run input params s = splice s more ∧ p.run input params s' = splice s' more
  inlined : ∀ body, InlinesAll p.body body → ∀ s : σ,
    { p with body := body }.run input params s = p.run input params s

theorem Program.adds [Sink σ] [LawfulSink σ] (p : Program ρ) (input : ρ) (params : Params ρ) :
    p.Adds σ input params := by
  have happart : ∀ s : σ, p.run input params s = splice s (p.run input params (fresh s)) :=
    fun s => congrArg Prod.snd
      ((Run.block_extends ⟨input, params⟩ p.body (Run.start p.registers input)).apart s)
  refine ⟨happart, fun s s' hs => ?_, fun body hbody s => ?_⟩
  · exact ⟨p.run input params (fresh s), happart s, by rw [happart s', hs]⟩
  · exact congrArg Prod.snd (hbody.same ⟨input, params⟩ (Run.start p.registers input) s)

/-- Every program renders every input by adding to the end of a sink of any kind, in whatever state
it is. -/
theorem rendering_appends (p : Program ρ) (input : ρ) (params : Params ρ) :
    p.Adds TextSink input params ∧ p.Adds BinarySink input params ∧
      p.Adds ObjectSink input params :=
  ⟨p.adds input params, p.adds input params, p.adds input params⟩

end PathTemplate
