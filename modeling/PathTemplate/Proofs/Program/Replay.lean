import PathTemplate.Proofs.Program.Trace

namespace PathTemplate

open Sink LawfulSink

variable {ρ σ : Type}

/-- A sink that counts as empty only when nothing comes of splicing it in. -/
class QuietSink (σ : Type) [Sink σ] : Prop extends LawfulSink σ where
  splice_of_isEmpty : ∀ s t : σ, isEmpty t → splice s t = s

instance : QuietSink TextSink where
  splice_of_isEmpty s t h := by
    have ht : t.content = "" := String.isEmpty_iff.mp h
    simp [splice, TextSink.append, ht]

instance : QuietSink BinarySink where
  splice_of_isEmpty s t h := by
    have ht : t.content = [] := List.isEmpty_iff.mp h
    simp [splice, BinarySink.append, ht]

instance : QuietSink ObjectSink where
  splice_of_isEmpty s t h := by
    have ht : t.value = none := Option.isNone_iff_eq_none.mp h
    simp [splice, ht]

theorem Appends.foldl [Sink σ] [LawfulSink σ] (vs : List (Value ρ)) :
    Appends (fun s : σ => vs.foldl Sink.accept s) := by
  induction vs with
  | nil => exact .id
  | cons v vs ih => exact ih.comp (.accept v)

section

variable (sc : Link.Scope ρ) (env : Run.Env ρ)

def handedOver (visits : List (Visit ρ)) : List (Value ρ) := visits.flatMap (accepted env)

theorem handedOver_cons (visit : Visit ρ) (rest : List (Visit ρ)) :
    handedOver env (visit :: rest) = accepted env visit ++ handedOver env rest := rfl

theorem handedOver_append (a b : List (Visit ρ)) :
    handedOver env (a ++ b) = handedOver env a ++ handedOver env b :=
  List.flatMap_append

theorem accepted_of_isCompound {st : Stmt} (h : st.isCompound) (regs : Run.Registers ρ) :
    accepted env (st, regs) = [] := by
  cases st <;> simp_all [Stmt.isCompound, accepted]

theorem visits_of_not_compound [Sink σ] {st : Stmt} (h : st.isCompound = false) (regs : Run.Registers ρ)
    (s : σ) : visits sc env st regs s = [(st, regs)] := by
  cases st <;> simp_all [Stmt.isCompound, visits]

variable [Sink σ]

mutual

theorem exec_replays [QuietSink σ] (st : Stmt) (regs : Run.Registers ρ) (s : σ) :
    (exec sc env [st] regs s).2 =
      (handedOver env (visits sc env st regs s)).foldl Sink.accept s := by
  cases hst : st.isCompound with
  | false =>
    rw [exec_eq_foldl sc env hst, visits_of_not_compound sc env hst]
    simp [handedOver]
  | true =>
    have hself := accepted_of_isCompound env hst regs
    cases st with
    | ifPresent guard value present absent =>
      rw [exec_ifPresent, visits, handedOver_cons, hself, List.nil_append]
      split
      · exact execAll_replays absent regs s
      · exact execAll_replays present regs s
    | capture sink parent body =>
      rw [exec_capture, visits, handedOver_cons, hself, List.nil_append]
      rw [execAll_replays body regs (fresh s)]
      exact ((Appends.foldl _).apart s).symm
    | firstNonEmpty sink parent bodies absent =>
      have hfirst := first_replays bodies regs (fresh s) s (fresh_fresh s).symm
      rw [exec_firstNonEmpty, visits, handedOver_cons, hself, List.nil_append, handedOver_append,
        List.foldl_append]
      cases hr : Run.first env (Link.blocks sc bodies).1 regs (fresh s) with
      | mk regs' result =>
        simp only [hr] at hfirst ⊢
        cases result with
        | some inner => exact hfirst
        | none =>
          dsimp only at hfirst ⊢
          rw [hfirst]
          exact execAll_replays absent regs' s
    | _ => simp [Stmt.isCompound] at hst

/-- A run hands the values of its trace to its sink, and does nothing else to it. -/
theorem execAll_replays [QuietSink σ] (stmts : List Stmt) (regs : Run.Registers ρ) (s : σ) :
    (exec sc env stmts regs s).2 =
      (handedOver env (visitsAll sc env stmts regs s)).foldl Sink.accept s := by
  cases stmts with
  | nil => rfl
  | cons st rest =>
    rw [exec_cons, visitsAll, handedOver_append, List.foldl_append, ← exec_replays st regs s]
    exact execAll_replays rest _ _

/-- The values of all alternatives that were tried, handed over in place: those before the one that
is taken leave nothing behind. -/
theorem first_replays [QuietSink σ] (bodies : List (List Stmt)) (regs : Run.Registers ρ)
    (inner s : σ) (hs : fresh s = fresh inner) :
    match (Run.first env (Link.blocks sc bodies).1 regs inner).2 with
    | some t => splice s t = (handedOver env (visitsEach sc env bodies regs inner)).foldl accept s
    | none => (handedOver env (visitsEach sc env bodies regs inner)).foldl accept s = s := by
  cases bodies with
  | nil => rfl
  | cons body rest =>
    have hbody := execAll_replays body regs (fresh inner)
    have hput : ((handedOver env (visitsAll sc env body regs (fresh inner))).foldl accept s) =
        splice s (exec sc env body regs (fresh inner)).2 := by
      rw [hbody, ← hs]
      exact (Appends.foldl _).apart s
    have hkept : fresh s = fresh (exec sc env body regs (fresh inner)).2 := by
      rw [hbody, hs, (Appends.foldl _).settings, fresh_fresh]
    rw [first_cons, visitsEach, handedOver_append, List.foldl_append, reset_eq_fresh, hput]
    cases he : isEmpty (exec sc env body regs (fresh inner)).2 with
    | true =>
      -- Nothing was written, so the values of this alternative leave the sink as it was.
      rw [QuietSink.splice_of_isEmpty s _ he]
      simpa only [he, if_true] using first_replays rest _ _ s hkept
    | false =>
      simp only [he, Bool.false_eq_true, if_false]
      rfl

end

end

end PathTemplate
