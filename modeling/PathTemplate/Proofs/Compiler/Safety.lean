import PathTemplate.Proofs.Compiler.Stages
import PathTemplate.Proofs.Program.Simulation
import PathTemplate.Proofs.Program.Soundness
import PathTemplate.Proofs.Program.Watched

namespace PathTemplate

open PathTemplate.Tree PathTemplate.Routine

variable {ρ σ : Type}

section

variable [Sink σ] {types : RecordTypes ρ} {schema : Schema ρ} {functions : Functions ρ}
  {params : Params ρ} {config : Config} {src : Source} {name : String} {r : Routine} {p : Program ρ}
  {input : ρ}

theorem Source.visits_safe (hc : Conforming types schema functions params)
    (hr : src.routine schema functions config name = .ok r)
    (hp : Program.link schema functions r = .ok p) (hin : types.IsA schema input src.input) (s : σ) :
    ∀ visit ∈ visitsAll ⟨schema, functions, r.temps.length⟩ ⟨input, params⟩ r.body
      (Run.start p.registers input) s, Safe (types.IsA schema) ⟨input, params⟩ visit := by
  obtain ⟨-, hlen, hread⟩ := Program.start_of_link hp input
  obtain ⟨-, children, ht, hgen⟩ := Source.routine_typed hr
  obtain ⟨st, hgen, htemps, -⟩ := ofTree_generates hgen
  refine hgen.safe (s := ⟨schema, functions, config.policy, src.input⟩) hc hin ht _ s
    (Nat.succ_pos _) (Nat.le_of_eq htemps.symm) hlen ?_
  rw [hread]
  exact .inr ⟨input, rfl, hin⟩

/-- Every statement that a compiled program carries out on an input of its type is safe, so that no
sink that the run writes to ever takes a map or a record, nor one inside a list unless a parameter
holds it. -/
theorem run_safe (hc : Conforming types schema functions params)
    (hr : src.routine schema functions config name = .ok r)
    (hp : src.link schema functions r = .ok p) (hin : types.IsA schema input src.input) (s : σ) :
    p.run input params s = (exec ⟨schema, functions, r.temps.length⟩ ⟨input, params⟩ r.body
      (Run.start p.registers input) s).2 ∧
    (∀ visit ∈ visitsAll ⟨schema, functions, r.temps.length⟩ ⟨input, params⟩ r.body
      (Run.start p.registers input) s, Safe (types.IsA schema) ⟨input, params⟩ visit) ∧
    p.run input params (Watched.of s) = .of (p.run input params s) ∧
    ((∀ name v, params.get? name = some v → v.isPlain) →
      ∀ visit ∈ visitsAll ⟨schema, functions, r.temps.length⟩ ⟨input, params⟩ r.body
        (Run.start p.registers input) s, ∀ v ∈ accepted ⟨input, params⟩ visit, v.isPlain) := by
  have hp := mapError_eq_ok.mp hp
  have hrun := fun {τ : Type} [Sink τ] (s : τ) => Program.run_eq_exec hp input params s
  have hsafe := Source.visits_safe hc hr hp hin s
  refine ⟨hrun s, hsafe, ?_, fun hparams visit hvisit v hv => ?_⟩
  · rw [hrun, hrun, execAll_watched _ _ _ _ _ fun visit hv v hmem =>
      ((hsafe visit hv).writes v hmem).1]
  · exact (hsafe visit hvisit).isPlain hparams hv

end

def personSchema : Schema String := ⟨[person]⟩

def personGreeting : Source := ⟨"Hello $\x7bname\x7d!", "Person", "text"⟩

theorem personSchema_conforming :
    Conforming ⟨fun _ => "Person", fun _ => "Person"⟩ personSchema .empty .empty where
  members := by simp [personSchema, person, Conforms, Value.isNull, HasShape, FlaggedTy.plain]
  functions := by simp [Functions.empty]
  params := by simp [Params.get?, Params.empty]

theorem run_safe_greeting : ∃ r p,
    personGreeting.routine personSchema .empty { policy := .strict } "greet" = .ok r ∧
    personGreeting.link personSchema .empty r = .ok p ∧
    (∀ visit ∈ visitsAll ⟨personSchema, .empty, r.temps.length⟩ ⟨"Ada", .empty⟩ r.body
      (Run.start p.registers "Ada") (TextSink.ofFormat .standard),
      Safe (RecordTypes.IsA ⟨fun _ => "Person", fun _ => "Person"⟩ personSchema)
        ⟨"Ada", .empty⟩ visit) ∧
    p.run "Ada" .empty (Watched.of (TextSink.ofFormat .standard)) =
      .of (p.run "Ada" .empty (TextSink.ofFormat .standard)) ∧
    ∀ visit ∈ visitsAll ⟨personSchema, .empty, r.temps.length⟩ ⟨"Ada", .empty⟩ r.body
      (Run.start p.registers "Ada") (TextSink.ofFormat .standard),
      ∀ v ∈ accepted ⟨"Ada", .empty⟩ visit, v.isPlain := by
  have hok : (personGreeting.routine personSchema .empty { policy := .strict } "greet" >>=
      personGreeting.link personSchema .empty).toBool := by
    decide +kernel
  obtain ⟨p, h⟩ := eq_ok_of_toBool hok
  obtain ⟨r, hr, hp⟩ := bind_eq_ok.mp h
  have hin : RecordTypes.IsA ⟨fun _ => "Person", fun _ => "Person"⟩ personSchema "Ada"
      personGreeting.input := rfl
  obtain ⟨-, hsafe, hwatched, hplain⟩ :=
    run_safe personSchema_conforming hr hp hin (TextSink.ofFormat .standard)
  exact ⟨r, p, hr, hp, hsafe, hwatched, hplain (by simp [Params.get?, Params.empty])⟩

end PathTemplate
