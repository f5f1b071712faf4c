import PathTemplate.Proofs.Compiler.Stages

namespace PathTemplate

variable {ρ ρ' : Type}

def Schema.memberTy? (s : Schema ρ) (owner : String) (kind : MemberKind) (name : String) :
    Option FlaggedTy :=
  ((s.shape? owner).bind (·.member? kind name)).map (·.ty)

/-- Schemas and functions that show the same names, kinds, arities and types. -/
structure Agree (schema : Schema ρ) (functions : Functions ρ) (schema' : Schema ρ')
    (functions' : Functions ρ') : Prop where
  shapes : ∀ name, (schema.shape? name).isSome = (schema'.shape? name).isSome
  members : ∀ owner kind name, schema.memberTy? owner kind name = schema'.memberTy? owner kind name
  arities : ∀ name, functions.arities name = functions'.arities name
  returns : ∀ name arity, (functions.lookup? name arity).map (·.returns) =
    (functions'.lookup? name arity).map (·.returns)

namespace Tree

def stepTo (owner name : String) (lookup : Lookup) (field? method? : Option FlaggedTy) :
    Except Miss (Access × FlaggedTy) :=
  match (if lookup = .method then none else field?), method? with
  | some ty, _ => .ok (.field owner name, ty)
  | none, some ty => .ok (.method owner name, ty)
  | none, none => .error (.noMember owner)

theorem stepFrom_record (schema : Schema ρ) (owner name : String) (lookup : Lookup) :
    stepFrom schema (.record owner) name lookup =
      if (schema.shape? owner).isSome then
        stepTo owner name lookup (schema.memberTy? owner .field name)
          (schema.memberTy? owner .method name)
      else .error (.unknownType owner) := by
  cases hs : schema.shape? owner with
  | none => simp [stepFrom, hs]
  | some shape =>
    have hkind : ∀ {kind : MemberKind} {m : Member ρ}, shape.member? kind name = some m →
        m.kind = kind := fun h => Shape.member?_kind h
    cases hf : shape.member? .field name with
    | some f =>
      cases hm : shape.member? .method name with
      | some m =>
        cases lookup <;> simp [stepFrom, hs, memberOf?, Shape.field?, Shape.method?, hf, hm,
          accessTo, hkind hf, hkind hm, stepTo, Schema.memberTy?]
      | none =>
        cases lookup <;> simp [stepFrom, hs, memberOf?, Shape.field?, Shape.method?, hf, hm,
          accessTo, hkind hf, stepTo, Schema.memberTy?]
    | none =>
      cases hm : shape.member? .method name with
      | some m =>
        cases lookup <;> simp [stepFrom, hs, memberOf?, Shape.field?, Shape.method?, hf, hm,
          accessTo, hkind hm, stepTo, Schema.memberTy?]
      | none =>
        cases lookup <;> simp [stepFrom, hs, memberOf?, Shape.field?, Shape.method?, hf, hm,
          stepTo, Schema.memberTy?]

theorem hasMethod_record (schema : Schema ρ) (owner name : String) :
    hasMethod schema (.record owner) name = (schema.memberTy? owner .method name).isSome := by
  cases hs : schema.shape? owner with
  | none => simp [hasMethod, Schema.memberTy?, hs]
  | some shape => simp [hasMethod, Schema.memberTy?, hs, Shape.method?]

section Agreeing

variable {s : Scope ρ} {s' : Scope ρ'}

/-- Scopes with the same input and policy over registrations that agree. -/
structure Scope.Agree (s : Scope ρ) (s' : Scope ρ') : Prop where
  policy : s.policy = s'.policy
  input : s.input = s'.input
  registered : PathTemplate.Agree s.schema s.functions s'.schema s'.functions

theorem stepFrom_agree (h : Scope.Agree s s') (ty : Ty) (name : String) (lookup : Lookup) :
    stepFrom s.schema ty name lookup = stepFrom s'.schema ty name lookup := by
  cases ty with
  | record owner =>
    rw [stepFrom_record, stepFrom_record, h.registered.shapes, h.registered.members,
      h.registered.members]
  | _ => rfl

theorem hasMethod_agree (h : Scope.Agree s s') (ty : Ty) (name : String) :
    hasMethod s.schema ty name = hasMethod s'.schema ty name := by
  cases ty with
  | record owner => rw [hasMethod_record, hasMethod_record, h.registered.members]
  | _ => rfl

theorem unresolved_agree (h : Scope.Agree s s') (p : Path) (e : ResolveError) :
    unresolved s p e = unresolved s' p e := by
  simp only [unresolved, h.policy]

theorem navigate_agree (h : Scope.Agree s s') (p : Path) (id : Ident) (lookup : Lookup) :
    navigate s p id lookup = navigate s' p id lookup := by
  simp only [navigate, stepFrom_agree h, unresolved_agree h]

theorem accessPath_agree (h : Scope.Agree s s') (ty : Ty) (steps : List (Ident × Lookup)) :
    accessPath s.schema ty steps = accessPath s'.schema ty steps := by
  induction steps generalizing ty with
  | nil => rfl
  | cons step rest ih =>
    obtain ⟨id, lookup⟩ := step
    simp only [accessPath, stepFrom_agree h, ih]

theorem argument_agree (h : Scope.Agree s s') (a : Arg) : argument s a = argument s' a := by
  cases a with
  | literal => rfl
  | path c => simp only [argument, accessPath_agree h, h.input, h.policy]

theorem arguments_agree (h : Scope.Agree s s') (passthrough : Bool) (args : List Arg) :
    arguments s passthrough args = arguments s' passthrough args := by
  induction args with
  | nil => rfl
  | cons a rest ih => simp only [arguments, argument_agree h, ih]

theorem head_agree (h : Scope.Agree s s') (p : Path) (hd : Head) : head s p hd = head s' p hd := by
  cases hd with
  | name id => exact navigate_agree h p id .member
  | key id => exact navigate_agree h p id .key
  | call id args =>
    have hreturns := h.registered.returns id.name args.length
    simp only [head]
    cases hf : s.functions.lookup? id.name args.length with
    | none =>
      cases hf' : s'.functions.lookup? id.name args.length with
      | some f' => simp [hf, hf'] at hreturns
      | none =>
        simp only [hasMethod_agree h, navigate_agree h, unresolved_agree h, h.registered.arities]
    | some f =>
      cases hf' : s'.functions.lookup? id.name args.length with
      | none => simp [hf, hf'] at hreturns
      | some f' =>
        have hty : f.returns = f'.returns := by simpa [hf, hf'] using hreturns
        simp only [arguments_agree h, hty]

mutual

theorem expr_agree (h : Scope.Agree s s') (base : FlaggedTy) (e : Expr) :
    expr s base e = expr s' base e := by
  obtain ⟨alternatives, default, span⟩ := e
  match alternatives with
  | [] => simp only [expr, chains]
  | [c] => simp only [expr, chain_agree h base c]
  | c :: c' :: rest =>
    have hall := chains_agree h base (c :: c' :: rest)
    simp only [expr, hall]

theorem chains_agree (h : Scope.Agree s s') (base : FlaggedTy) (cs : List Chain) :
    chains s base cs = chains s' base cs := by
  match cs with
  | [] => rfl
  | c :: rest => simp only [chains, chain_agree h base c, chains_agree h base rest]

theorem chain_agree (h : Scope.Agree s s') (base : FlaggedTy) (c : Chain) :
    chain s base c = chain s' base c := by
  obtain ⟨hd, steps, a, conv, span⟩ := c
  simp only [chain, head_agree h, fun p => followAll_agree h p steps]

theorem followAll_agree (h : Scope.Agree s s') (p : Path) (steps : List Step) :
    followAll s p steps = followAll s' p steps := by
  match steps with
  | [] => rfl
  | step :: rest => simp only [followAll, follow_agree h p step, fun q => followAll_agree h q rest]

theorem follow_agree (h : Scope.Agree s s') (p : Path) (step : Step) :
    follow s p step = follow s' p step := by
  match step with
  | .member id => exact navigate_agree h p id .member
  | .call id => exact navigate_agree h p id .method
  | .key id => exact navigate_agree h p id .key
  | .join items span => simp only [follow, fun base => joined_agree h base items]

theorem joined_agree (h : Scope.Agree s s') (base : FlaggedTy) (items : List JoinItem) :
    joined s base items = joined s' base items := by
  match items with
  | [] => rfl
  | .text text span :: rest => simp only [joined, joined_agree h base rest]
  | .expr e :: rest => simp only [joined, expr_agree h base e, joined_agree h base rest]

end

theorem segments_agree (h : Scope.Agree s s') (segs : List Segment) :
    segments s segs = segments s' segs := by
  induction segs with
  | nil => rfl
  | cons seg rest ih =>
    cases seg with
    | text => simp only [segments, ih]
    | expr e => simp only [segments, expr_agree h, h.input, ih]

theorem ofTemplate_agree (h : Scope.Agree s s') (sink : String) (t : Template) :
    ofTemplate s sink t = ofTemplate s' sink t := by
  have hshape := h.registered.shapes s.input
  simp only [ofTemplate, segments_agree h]
  rw [h.input] at hshape ⊢
  cases hs : s.schema.shape? s'.input <;> cases hs' : s'.schema.shape? s'.input <;>
    simp_all

end Agreeing

end Tree

/-- A source becomes the same routine, or fails with the same error, over registrations that
agree. -/
theorem Source.routine_agree {schema : Schema ρ} {functions : Functions ρ} {schema' : Schema ρ'}
    {functions' : Functions ρ'} (h : Agree schema functions schema' functions') (config : Config)
    (name : String) (src : Source) : src.routine schema functions config name =
      src.routine schema' functions' config name := by
  have hscope : Tree.Scope.Agree ⟨schema, functions, config.policy, src.input⟩
      ⟨schema', functions', config.policy, src.input⟩ := ⟨rfl, rfl, h⟩
  simp only [Source.routine, Source.tree, Tree.ofTemplate_agree hscope]

end PathTemplate
