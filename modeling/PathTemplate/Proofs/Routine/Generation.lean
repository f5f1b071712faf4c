import PathTemplate.Proofs.Outcome
import PathTemplate.Routine.OfTree

namespace PathTemplate.Routine

open PathTemplate.Tree

/-- The statement that computes the value of a node into `dst`, and what its temporary is called
after, for the kinds that compute one. -/
def computing? (dst src : Nat) (ty : Ty) : NodeKind → Option (TempKind × Stmt)
  | .field owner name => some (.field, .load dst src (.field owner name))
  | .method owner name => some (.method, .load dst src (.method owner name))
  | .mapAccess key => some (.map, .load dst src (.key key))
  | .math op operand => some (.math, .math dst src op operand ty)
  | .cast target => some (.cast, .cast dst src target)
  | .function name args => some (.call, .call dst name args)
  | _ => none

def guardOf? : NodeKind → Option GuardKind
  | .optionalGuard => some .optional
  | .nullableGuard => some .nullable
  | _ => none

def Supply.next (s : Supply) : Nat := s.temps.length + 1

@[simp] theorem Supply.next_temp (s : Supply) (kind : TempKind) :
    (s.temp kind).2.next = s.next + 1 := rfl

theorem Supply.tempNames_length (temps : List TempKind) :
    (tempNames temps).length = temps.length + 1 := by
  induction temps with
  | nil => rfl
  | cons k earlier ih => simp [tempNames, ih]

section Equations

variable {max : Nat} {cx : Context} {kind : NodeKind} {ty : FlaggedTy} {span : Span}
  {children otherwise : List Node} {s : Supply}

theorem node_computing {temp : TempKind} {stmt : Stmt}
    (h : computing? s.next cx.value ty.ty kind = some (temp, stmt)) :
    node max cx (.mk kind ty span children otherwise) s =
      if max < cx.depth then .error ⟨max, span⟩
      else do
        let r ← block max (cx.descend s.next ty) children (s.temp temp).2
        return (stmt :: r.1, r.2) := by
  cases kind <;> simp only [computing?, Option.some.injEq, Prod.mk.injEq, reduceCtorEq] at h
  all_goals
    obtain ⟨rfl, rfl⟩ := h
    rfl

theorem node_guard {guard : GuardKind} (h : guardOf? kind = some guard) :
    node max cx (.mk kind ty span children otherwise) s =
      if max < cx.depth then .error ⟨max, span⟩
      else do
        let r ← block max (cx.descend cx.value ty) children s
        let r' ← block max cx.deeper otherwise r.2
        return ([.ifPresent guard cx.value r.1 r'.1], r'.2) := by
  cases kind <;> simp only [guardOf?, Option.some.injEq, reduceCtorEq] at h
  all_goals
    subst h
    rfl

theorem alternatives_concatenation (ns : List Node) :
    alternatives max cx (.mk .concatenation ty span children otherwise :: ns) s = do
      let r ← block max cx.deeper children s
      let r' ← alternatives max cx ns r.2
      return (r.1 :: r'.1, r'.2) := by
  rw [alternatives]

theorem alternatives_other {n : Node} (h : n.kind ≠ .concatenation) (ns : List Node) :
    alternatives max cx (n :: ns) s = do
      let r ← node max cx n s
      let r' ← alternatives max cx ns r.2
      return (r.1 :: r'.1, r'.2) := by
  rw [alternatives]
  rintro ty span children otherwise rfl
  exact h rfl

end Equations

mutual

/-- The node becomes the statements, which take the supply from the first to the second. -/
inductive Generates : Context → Node → Supply → List Stmt → Supply → Prop where
  | literal {cx : Context} {text : String} {ty : FlaggedTy} {span : Span}
      {children otherwise : List Node} {s : Supply} :
      Generates cx (.mk (.literal text) ty span children otherwise) s [.text text] s
  | compute {cx : Context} {kind : NodeKind} {ty : FlaggedTy} {span : Span}
      {children otherwise : List Node} {s s' : Supply} {temp : TempKind} {stmt : Stmt}
      {rest : List Stmt} (computes : computing? s.next cx.value ty.ty kind = some (temp, stmt))
      (below : GeneratesAll (cx.descend s.next ty) children (s.temp temp).2 rest s') :
      Generates cx (.mk kind ty span children otherwise) s (stmt :: rest) s'
  | guard {cx : Context} {kind : NodeKind} {ty : FlaggedTy} {span : Span}
      {children otherwise : List Node} {s s' s'' : Supply} {guard : GuardKind}
      {present absent : List Stmt} (guards : guardOf? kind = some guard)
      (below : GeneratesAll (cx.descend cx.value ty) children s present s')
      (aside : GeneratesAll cx.deeper otherwise s' absent s'') :
      Generates cx (.mk kind ty span children otherwise) s
        [.ifPresent guard cx.value present absent] s''
  | orFallback {cx : Context} {ty : FlaggedTy} {span : Span} {children otherwise : List Node}
      {s s' s'' : Supply} {bodies : List (List Stmt)} {absent : List Stmt}
      (below : GeneratesEach (cx.deeper.into s.sink.1) children s.sink.2 bodies s')
      (aside : GeneratesAll cx.deeper otherwise s' absent s'') :
      Generates cx (.mk .orFallback ty span children otherwise) s
        [.firstNonEmpty s.sink.1 cx.sink bodies absent] s''
  | concatenation {cx : Context} {ty : FlaggedTy} {span : Span} {children otherwise : List Node}
      {s s' : Supply} {body : List Stmt}
      (below : GeneratesAll (cx.deeper.into s.sink.1) children s.sink.2 body s') :
      Generates cx (.mk .concatenation ty span children otherwise) s
        [.capture s.sink.1 cx.sink body] s'
  | print {cx : Context} {value : Option Fallback} {ty : FlaggedTy} {span : Span}
      {children otherwise : List Node} {s : Supply} :
      Generates cx (.mk (.print value) ty span children otherwise) s
        [.emit cx.value (checkFor cx.ty value)] s
  | default {cx : Context} {value : Fallback} {ty : FlaggedTy} {span : Span}
      {children otherwise : List Node} {s : Supply} :
      Generates cx (.mk (.default value) ty span children otherwise) s [.emitDefault value] s
  | notFound {cx : Context} {name : String} {ty : FlaggedTy} {span : Span}
      {children otherwise : List Node} {s s' : Supply} {rest : List Stmt}
      (below : GeneratesAll cx children s rest s') :
      Generates cx (.mk (.notFound name) ty span children otherwise) s (.missing name :: rest) s'
  | root {cx : Context} {input sink : String} {ty : FlaggedTy} {span : Span}
      {children otherwise : List Node} {s s' : Supply} {rest : List Stmt}
      (below : GeneratesAll cx children s rest s') :
      Generates cx (.mk (.root input sink) ty span children otherwise) s rest s'

inductive GeneratesAll : Context → List Node → Supply → List Stmt → Supply → Prop where
  | nil {cx : Context} {s : Supply} : GeneratesAll cx [] s [] s
  | cons {cx : Context} {n : Node} {ns : List Node} {s s' s'' : Supply} {stmts more : List Stmt}
      (first : Generates cx n s stmts s') (rest : GeneratesAll cx ns s' more s'') :
      GeneratesAll cx (n :: ns) s (stmts ++ more) s''

inductive GeneratesEach : Context → List Node → Supply → List (List Stmt) → Supply → Prop where
  | nil {cx : Context} {s : Supply} : GeneratesEach cx [] s [] s
  | concatenation {cx : Context} {ty : FlaggedTy} {span : Span} {children otherwise ns : List Node}
      {s s' s'' : Supply} {body : List Stmt} {more : List (List Stmt)}
      (first : GeneratesAll cx.deeper children s body s')
      (rest : GeneratesEach cx ns s' more s'') :
      GeneratesEach cx (.mk .concatenation ty span children otherwise :: ns) s (body :: more) s''
  | other {cx : Context} {n : Node} {ns : List Node} {s s' s'' : Supply} {body : List Stmt}
      {more : List (List Stmt)} (first : Generates cx n s body s')
      (rest : GeneratesEach cx ns s' more s'') : GeneratesEach cx (n :: ns) s (body :: more) s''

end

mutual

theorem node_generates {max : Nat} {cx : Context} {s : Supply} :
    (n : Node) → {r : List Stmt × Supply} → node max cx n s = .ok r → Generates cx n s r.1 r.2
  | .mk kind ty span children otherwise, r, h => by
    cases hc : computing? s.next cx.value ty.ty kind with
    | some p =>
      rw [node_computing hc] at h
      split at h
      · cases h
      · obtain ⟨below, hb, h⟩ := bind_eq_ok.mp h
        obtain rfl := pure_eq_ok.mp h
        exact .compute hc (block_generates children hb)
    | none =>
    cases hg : guardOf? kind with
    | some guard =>
      rw [node_guard hg] at h
      split at h
      · cases h
      · obtain ⟨below, hb, h⟩ := bind_eq_ok.mp h
        obtain ⟨aside, ha, h⟩ := bind_eq_ok.mp h
        obtain rfl := pure_eq_ok.mp h
        exact .guard hg (block_generates children hb) (block_generates otherwise ha)
    | none =>
      unfold node at h
      split at h
      · cases h
      · cases kind with
        | root => exact .root (block_generates children h)
        | literal text => cases h; exact .literal
        | orFallback =>
          obtain ⟨below, hb, h⟩ := bind_eq_ok.mp h
          obtain ⟨aside, ha, h⟩ := bind_eq_ok.mp h
          obtain rfl := pure_eq_ok.mp h
          exact .orFallback (alternatives_generates children hb) (block_generates otherwise ha)
        | concatenation =>
          obtain ⟨below, hb, h⟩ := bind_eq_ok.mp h
          obtain rfl := pure_eq_ok.mp h
          exact .concatenation (block_generates children hb)
        | print => cases h; exact .print
        | default => cases h; exact .default
        | notFound =>
          obtain ⟨below, hb, h⟩ := bind_eq_ok.mp h
          obtain rfl := pure_eq_ok.mp h
          exact .notFound (block_generates children hb)
        | optionalGuard | nullableGuard => simp [guardOf?] at hg
        | _ => simp [computing?] at hc

theorem block_generates {max : Nat} {cx : Context} {s : Supply} :
    (ns : List Node) → {r : List Stmt × Supply} → block max cx ns s = .ok r →
      GeneratesAll cx ns s r.1 r.2
  | [], r, h => by
    cases h
    exact .nil
  | n :: ns, r, h => by
    unfold block at h
    obtain ⟨first, hf, h⟩ := bind_eq_ok.mp h
    obtain ⟨rest, hr, h⟩ := bind_eq_ok.mp h
    obtain rfl := pure_eq_ok.mp h
    exact .cons (node_generates n hf) (block_generates ns hr)

theorem alternatives_generates {max : Nat} {cx : Context} {s : Supply} :
    (ns : List Node) → {r : List (List Stmt) × Supply} → alternatives max cx ns s = .ok r →
      GeneratesEach cx ns s r.1 r.2
  | [], r, h => by
    cases h
    exact .nil
  | .mk kind ty span children otherwise :: ns, r, h => by
    by_cases hk : kind = .concatenation
    · subst hk
      rw [alternatives_concatenation] at h
      obtain ⟨first, hf, h⟩ := bind_eq_ok.mp h
      obtain ⟨rest, hr, h⟩ := bind_eq_ok.mp h
      obtain rfl := pure_eq_ok.mp h
      exact .concatenation (block_generates children hf) (alternatives_generates ns hr)
    · rw [alternatives_other (by exact hk)] at h
      obtain ⟨first, hf, h⟩ := bind_eq_ok.mp h
      obtain ⟨rest, hr, h⟩ := bind_eq_ok.mp h
      obtain rfl := pure_eq_ok.mp h
      exact .other (node_generates _ hf) (alternatives_generates ns hr)

end

/-- The routine of a tree comes from a derivation for what hangs below its root, in which every
temporary but the input has its own number. -/
theorem ofTree_generates {max : Nat} {name : String} {n : Node} {r : Routine}
    (h : ofTree max name n = .ok r) :
    ∃ s, GeneratesAll ⟨0, 0, 0, n.ty⟩ n.children .empty r.body s ∧
      r.temps.length = s.next ∧ r.input = (signature n).1 ∧ r.name = name := by
  obtain ⟨⟨body, s⟩, hb, h⟩ := bind_eq_ok.mp h
  obtain rfl := pure_eq_ok.mp h
  exact ⟨s, block_generates _ hb, Supply.tempNames_length s.temps, rfl, rfl⟩

end PathTemplate.Routine
