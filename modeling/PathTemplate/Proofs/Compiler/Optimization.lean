import PathTemplate.Proofs.Compiler.Stages
import PathTemplate.Proofs.Program.Linking
import PathTemplate.Proofs.Program.Simulation
import PathTemplate.Proofs.Routine.Depth

namespace PathTemplate

open PathTemplate.Tree PathTemplate.Routine

variable {ρ σ : Type}

theorem run_compact {scope : Tree.Scope ρ} {sink : String} {children : List Node}
    (hs : (scope.schema.shape? scope.input).isSome)
    (ht : ∀ c ∈ children, Typed scope (.plain (.record scope.input)) c)
    {depth : Nat} {name name' : String} {r r' : Routine}
    (hr : ofTree depth name (compact (.root scope.input sink children)).1 = .ok r)
    (hr' : ofTree depth name' (.root scope.input sink children) = .ok r') :
    ∃ p p', Program.link scope.schema scope.functions r = .ok p ∧
      Program.link scope.schema scope.functions r' = .ok p' ∧
      ∀ {σ : Type} [Sink σ] [LawfulSink σ] (input : ρ) (params : Params ρ) (s : σ),
        p.run input params s = p'.run input params s := by
  rw [compact_root] at hr
  obtain ⟨p, hp⟩ := ofTree_links hs (compactList_typed children _ ht) hr
  obtain ⟨p', hp'⟩ := ofTree_links hs ht hr'
  refine ⟨p, p', hp, hp', fun input params s => ?_⟩
  rw [Program.run_eq_walkAll hr hp, Program.run_eq_walkAll hr' hp']
  exact walkAll_compact _ ht _ s

/-- A source compiled with and without merging of common paths is refused with the same error, or
becomes two programs that write the same into every sink from every input. -/
theorem optimize_invisible (schema : Schema ρ) (functions : Functions ρ) (config : Config)
    (src : Source) (name name' : String) :
    match src.routine schema functions { config with optimize := true } name,
      src.routine schema functions { config with optimize := false } name' with
    | .error e, .error e' => e = e'
    | .ok r, .ok r' =>
      ∃ p p', src.link schema functions r = .ok p ∧ src.link schema functions r' = .ok p' ∧
        ∀ (input : ρ) (params : Params ρ),
          (∀ s : TextSink, p.run input params s = p'.run input params s) ∧
          (∀ s : BinarySink, p.run input params s = p'.run input params s) ∧
          ∀ s : ObjectSink, p.run input params s = p'.run input params s
    | _, _ => False := by
  cases hres : src.resolved schema functions config.policy with
  | error d =>
    simp only [Source.routine, Source.tree_eq, hres]
    rfl
  | ok tree =>
    obtain ⟨hs, children, rfl, ht⟩ := Source.resolved_typed hres
    have hdepth : ∀ e, ofTree config.maxDepth name
        (compact (.root src.input src.sink children)).1 = .error e ↔
        ofTree config.maxDepth name' (.root src.input src.sink children) = .error e :=
      fun e => ofTree_compact_error (by exact ht) name name' e
    rw [Source.routine_eq (by exact hres), Source.routine_eq (by exact hres)]
    simp only [if_true, Bool.false_eq_true, if_false]
    cases hr : ofTree config.maxDepth name (compact (.root src.input src.sink children)).1 with
    | error e =>
      rw [(hdepth e).mp hr]
      rfl
    | ok r =>
      cases hr' : ofTree config.maxDepth name' (.root src.input src.sink children) with
      | error e => simp [(hdepth e).mpr hr'] at hr
      | ok r' =>
        obtain ⟨p, p', hp, hp', h⟩ := run_compact hs ht hr hr'
        exact ⟨p, p', mapError_eq_ok.mpr hp, mapError_eq_ok.mpr hp', fun input params =>
          ⟨h input params, h input params, h input params⟩⟩

end PathTemplate
