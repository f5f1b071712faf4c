import PathTemplate.Compiler.Source
import PathTemplate.Proofs.Tree.Compaction
import PathTemplate.Proofs.Tree.Resolved

namespace PathTemplate

open PathTemplate.Tree PathTemplate.Routine

variable {ρ : Type}

def Source.resolved (schema : Schema ρ) (functions : Functions ρ) (policy : Policy) (s : Source) :
    Except Diagnostic Node := do
  let template ← (Template.parse s.template).mapError .ofParse
  (Tree.ofTemplate ⟨schema, functions, policy, s.input⟩ s.sink template).mapError .ofBuild

theorem Source.tree_eq (schema : Schema ρ) (functions : Functions ρ) (config : Config)
    (s : Source) : s.tree schema functions config = do
      let tree ← s.resolved schema functions config.policy
      return if config.optimize then (Tree.compact tree).1 else tree := by
  unfold Source.tree Source.resolved
  cases (Template.parse s.template).mapError Diagnostic.ofParse <;> rfl

theorem Source.routine_eq {schema : Schema ρ} {functions : Functions ρ} {config : Config}
    {s : Source} {tree : Node} (h : s.resolved schema functions config.policy = .ok tree)
    (name : String) : s.routine schema functions config name =
      (Routine.ofTree config.maxDepth name
        (if config.optimize then (Tree.compact tree).1 else tree)).mapError
          fun e => ⟨s.template, [.ofDepth e]⟩ := by
  simp only [Source.routine, Source.tree_eq, h, bind, Except.bind, pure, Except.pure]
  cases Routine.ofTree config.maxDepth name
    (if config.optimize then (Tree.compact tree).1 else tree) <;> rfl

theorem mapError_eq_ok {ε ε' α : Type} {x : Except ε α} {f : ε → ε'} {a : α} :
    x.mapError f = .ok a ↔ x = .ok a := by
  constructor <;> intro h <;> cases x <;> cases h
  all_goals rfl

theorem Source.resolved_typed {schema : Schema ρ} {functions : Functions ρ} {policy : Policy}
    {s : Source} {tree : Node} (h : s.resolved schema functions policy = .ok tree) :
    (schema.shape? s.input).isSome ∧ ∃ children, tree = .root s.input s.sink children ∧
      ∀ c ∈ children, Typed ⟨schema, functions, policy, s.input⟩ (.plain (.record s.input)) c := by
  obtain ⟨template, -, h⟩ := bind_eq_ok.mp h
  exact Tree.ofTemplate_typed (mapError_eq_ok.mp h)

/-- With or without merging, a routine is made from a typed tree over a known input type. -/
theorem Source.routine_typed {schema : Schema ρ} {functions : Functions ρ} {config : Config}
    {s : Source} {name : String} {r : Routine}
    (h : s.routine schema functions config name = .ok r) :
    (schema.shape? s.input).isSome ∧ ∃ children,
      (∀ c ∈ children, Typed ⟨schema, functions, config.policy, s.input⟩
        (.plain (.record s.input)) c) ∧
      Routine.ofTree config.maxDepth name (.root s.input s.sink children) = .ok r := by
  cases hres : s.resolved schema functions config.policy with
  | error d =>
    simp only [Source.routine, Source.tree_eq, hres] at h
    cases h
  | ok tree =>
    rw [Source.routine_eq hres] at h
    obtain ⟨hs, children, rfl, ht⟩ := Source.resolved_typed hres
    have h := mapError_eq_ok.mp h
    split at h
    · rw [compact_root] at h
      exact ⟨hs, _, compactList_typed children _ ht, h⟩
    · exact ⟨hs, children, ht, h⟩

end PathTemplate
