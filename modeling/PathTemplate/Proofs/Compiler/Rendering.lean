import PathTemplate.Proofs.Compiler.Stages
import PathTemplate.Proofs.Program.Linking
import PathTemplate.Proofs.Program.Simulation
import PathTemplate.Proofs.Routine.Depth

namespace PathTemplate

open PathTemplate.Tree PathTemplate.Routine

variable {ρ : Type}

theorem Routine.ofTree_isOk_iff (max : Nat) (name : String) (n : Node) :
    (∃ r, ofTree max name n = .ok r) ↔ tooDeepAll? max 0 n.children = none := by
  have h := ofTree_stopsAt max name n
  cases hdeep : tooDeepAll? max 0 n.children with
  | none =>
    rw [hdeep] at h
    exact ⟨fun _ => rfl, fun _ => h⟩
  | some span =>
    rw [hdeep] at h
    have h : ofTree max name n = .error ⟨max, span⟩ := h
    simp [h]

def Template.defaulted? : Template → Option (List Chain × Literal)
  | ⟨[.expr (.mk cs (some l) _)]⟩ => some (cs, l)
  | _ => none

theorem Template.parse_defaulted {text : String} {cs : List Chain} {l : Literal}
    (h : (parse text).toOption.bind defaulted? = some (cs, l)) :
    ∃ span, parse text = .ok ⟨[.expr (.mk cs (some l) span)]⟩ := by
  obtain ⟨t, ht, h⟩ := Option.bind_eq_some_iff.mp h
  unfold defaulted? at h
  split at h
  next span =>
    cases h
    exact ⟨span, eq_ok_of_toOption ht⟩
  next => cases h

/-- Nodes that take the place of others in a program: they nest as deep and write the same. -/
structure Tree.Replaces (scope : Scope ρ) (max : Nat) (nodes merged : List Node) : Prop where
  typed : ∀ n ∈ merged, Typed scope (.plain (.record scope.input)) n
  tooDeep : tooDeepAll? max 0 merged = tooDeepAll? max 0 nodes
  walk : ∀ {σ : Type} [Sink σ] [LawfulSink σ] (w : World ρ) (v : Value ρ) (s : σ),
    walkAll w (.plain (.record scope.input)) v merged s =
      walkAll w (.plain (.record scope.input)) v nodes s

theorem Tree.merged_replaces {scope : Scope ρ} {children : List Node}
    (ht : ∀ n ∈ children, Typed scope (.plain (.record scope.input)) n) (max : Nat)
    (optimize : Bool) (sink : String) :
    ∃ merged, Replaces scope max children merged ∧
      (if optimize then (compact (.root scope.input sink children)).1
        else .root scope.input sink children) = .root scope.input sink merged := by
  cases optimize with
  | false => exact ⟨children, ⟨ht, rfl, fun _ _ _ => rfl⟩, rfl⟩
  | true =>
    refine ⟨(compactList children).1, ⟨compactList_typed children _ ht, ?_, ?_⟩, compact_root ..⟩
    · exact (tooDeepAll?_compactList children _ ht).1 0
    · intro σ _ _ w v s
      exact walkAll_compact w ht v s

namespace Source

variable {schema : Schema ρ} {functions : Functions ρ} {config : Config} {src : Source}
  {children : List Node}

def program (schema : Schema ρ) (functions : Functions ρ) (config : Config) (name : String)
    (s : Source) : Except CompileError (Program ρ) := do
  s.link schema functions (← s.routine schema functions config name)

theorem resolved_eq_ok {policy : Policy} :
    src.resolved schema functions policy = .ok (.root src.input src.sink children) ↔
      ∃ t, Template.parse src.template = .ok t ∧ (schema.shape? src.input).isSome ∧
        segments ⟨schema, functions, policy, src.input⟩ t.segments = .ok children := by
  simp only [resolved, bind_eq_ok, mapError_eq_ok, ofTemplate]
  refine exists_congr fun t => and_congr_right fun _ => ?_
  cases schema.shape? src.input with
  | none => simp
  | some shape =>
    simp only [bind_eq_ok, pure_eq_ok, Option.isSome_some, true_and]
    constructor
    · rintro ⟨ns, hns, hroot⟩
      cases hroot
      exact hns
    · exact fun h => ⟨children, h, rfl⟩

theorem resolved_of_program {name : String} {p : Program ρ}
    (h : src.program schema functions config name = .ok p) :
    ∃ children, src.resolved schema functions config.policy =
      .ok (.root src.input src.sink children) := by
  obtain ⟨r, hr, -⟩ := bind_eq_ok.mp h
  cases hres : src.resolved schema functions config.policy with
  | error d =>
    simp only [routine, tree_eq, hres] at hr
    cases hr
  | ok tree =>
    obtain ⟨-, children, rfl, -⟩ := resolved_typed hres
    exact ⟨children, rfl⟩

theorem routine_replaced (hres : src.resolved schema functions config.policy =
      .ok (.root src.input src.sink children)) (name : String) :
    (schema.shape? src.input).isSome ∧
      ∃ merged, Replaces ⟨schema, functions, config.policy, src.input⟩ config.maxDepth children
          merged ∧
        ∀ r, src.routine schema functions config name = .ok r ↔
          ofTree config.maxDepth name (.root src.input src.sink merged) = .ok r := by
  obtain ⟨hs, children', hroot, ht⟩ := resolved_typed hres
  obtain rfl : children = children' := by
    cases hroot
    rfl
  obtain ⟨merged, hmerged, htree⟩ := merged_replaces ht config.maxDepth config.optimize src.sink
  refine ⟨hs, merged, hmerged, fun r => ?_⟩
  rw [routine_eq hres, mapError_eq_ok]
  have hgen := congrArg (ofTree config.maxDepth name) htree
  exact ⟨hgen.symm.trans, hgen.trans⟩

theorem program_renders {name : String} {p : Program ρ}
    (hres : src.resolved schema functions config.policy = .ok (.root src.input src.sink children))
    (h : src.program schema functions config name = .ok p) :
    tooDeepAll? config.maxDepth 0 children = none ∧
      ∀ {σ : Type} [Sink σ] [LawfulSink σ] (input : ρ) (params : Params ρ) (s : σ),
        p.run input params s = walkAll ⟨schema, functions, ⟨input, params⟩⟩
          (.plain (.record src.input)) (.record input) children s := by
  obtain ⟨-, merged, hmerged, hroutine⟩ := routine_replaced hres name
  obtain ⟨r, hr, hp⟩ := bind_eq_ok.mp h
  have hr := (hroutine r).mp hr
  have hp := mapError_eq_ok.mp hp
  constructor
  · rw [← hmerged.tooDeep]
    exact (ofTree_isOk_iff config.maxDepth name (.root src.input src.sink merged)).mp ⟨r, hr⟩
  · intro σ _ _ input params s
    rw [Program.run_eq_walkAll hr hp]
    exact hmerged.walk _ _ s

theorem program_of_resolved
    (hres : src.resolved schema functions config.policy = .ok (.root src.input src.sink children))
    (hdeep : tooDeepAll? config.maxDepth 0 children = none) (name : String) :
    ∃ p, src.program schema functions config name = .ok p := by
  obtain ⟨hs, merged, hmerged, hroutine⟩ := routine_replaced hres name
  rw [← hmerged.tooDeep] at hdeep
  obtain ⟨r, hr⟩ := (ofTree_isOk_iff config.maxDepth name
    (.root src.input src.sink merged)).mpr hdeep
  obtain ⟨p, hp⟩ := ofTree_links hs hmerged.typed hr
  exact ⟨p, bind_eq_ok.mpr ⟨r, (hroutine r).mpr hr, mapError_eq_ok.mpr hp⟩⟩

end Source

end PathTemplate
