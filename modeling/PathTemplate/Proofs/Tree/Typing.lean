import PathTemplate.Proofs.Outcome
import PathTemplate.Proofs.Tree.Meaning
import PathTemplate.Tree.OfTemplate

/-!
Typing of render trees. Every node fits the type of the value it is applied to: names are known,
steps, arithmetic, casts and joins start from values that are present, each guard takes away the
flag it checks, and nothing but a constant stands where a value is absent. A path is typed as a
tree that waits for its last node.
-/

namespace PathTemplate.Tree

variable {ρ : Type}

inductive Navigates (schema : Schema ρ) : Ty → Access → FlaggedTy → Prop where
  | field {owner name : String} {m : Member ρ} :
      memberAt? schema (.field owner name) = some m →
      Navigates schema (.record owner) (.field owner name) m.ty
  | method {owner name : String} {m : Member ρ} :
      memberAt? schema (.method owner name) = some m →
      Navigates schema (.record owner) (.method owner name) m.ty
  | key {value : Ty} {name : String} :
      Navigates schema (.map value) (.key name) (FlaggedTy.plain value).asNullable

/-- The steps of an argument, from a type to the one at their end. -/
inductive Reaches (schema : Schema ρ) : Ty → List Access → Ty → Prop where
  | here {ty : Ty} : Reaches schema ty [] ty
  | step {ty last : Ty} {a : Access} {next : FlaggedTy} {rest : List Access} :
      Navigates schema ty a next → Reaches schema next.ty rest last →
      Reaches schema ty (a :: rest) last

/-- An argument of a function. One that may be handed on as the result has to be printable. -/
def ArgumentFits (s : Scope ρ) (handedOn : Prop) : Argument → Prop
  | .path steps => ∃ ty, Reaches s.schema (.record s.input) steps ty ∧ (handedOn → ty.isPrintable)
  | _ => True

/-- An operand that arithmetic in a type can use: it fits the type, and nothing whole is divided by
zero. -/
def OperandFits (ty : Ty) (op : Operator) : Operand → Prop
  | .float _ => True
  | .int n =>
    (ty = .int → -2147483648 ≤ n.toInt ∧ n.toInt < 2147483648) ∧
      (ty.isIntegral → op = .div ∨ op = .rem → n ≠ 0)

/-- Kinds that write the same whatever the current value is. -/
def NodeKind.isConstant : NodeKind → Bool
  | .literal _ | .default _ => true
  | _ => false

def NodeKind.passes (cur ty : FlaggedTy) : NodeKind → FlaggedTy
  | .root .. | .orFallback | .concatenation | .notFound _ => cur
  | _ => ty

/-- What a node asks of the current type, its own type and the kinds of the nodes below it. -/
def Fits (s : Scope ρ) (cur ty : FlaggedTy) (children otherwise : List Node) : NodeKind → Prop
  | .root .. => False
  | .literal _ | .default _ => children = [] ∧ otherwise = []
  | .print _ => ty = cur ∧ cur.ty.isPrintable ∧ children = [] ∧ otherwise = []
  | .notFound _ =>
    children.length ≤ 1 ∧ (∀ c ∈ children, ∃ value, c.kind = .default value) ∧ otherwise = []
  | .field owner name =>
    cur.isFlagged = false ∧ Navigates s.schema cur.ty (.field owner name) ty ∧
      children ≠ [] ∧ otherwise = []
  | .method owner name =>
    cur.isFlagged = false ∧ Navigates s.schema cur.ty (.method owner name) ty ∧
      children ≠ [] ∧ otherwise = []
  | .mapAccess key =>
    cur.isFlagged = false ∧ Navigates s.schema cur.ty (.key key) ty ∧
      children ≠ [] ∧ otherwise = []
  | .math op operand =>
    cur.isFlagged = false ∧ cur.ty.isNumeric ∧ ty = .plain (promoted cur.ty operand) ∧
      OperandFits ty.ty op operand ∧ children ≠ [] ∧ otherwise = []
  | .cast target =>
    cur.isFlagged = false ∧ castAllowed cur.ty target ∧ ty = .plain target ∧
      children ≠ [] ∧ otherwise = []
  | .function name args =>
    (∃ f, s.functions.lookup? name args.length = some f ∧ f.returns = ty) ∧
      (∀ a ∈ args, ArgumentFits s (ty.ty = .unknown) a) ∧ children ≠ [] ∧ otherwise = []
  | .optionalGuard =>
    cur.optional ∧ ty = { cur with optional := false } ∧ children ≠ [] ∧
      ∀ c ∈ otherwise, c.kind.isConstant
  | .nullableGuard =>
    cur.optional = false ∧ cur.nullable ∧ ty = cur.present ∧ children ≠ [] ∧
      ∀ c ∈ otherwise, c.kind.isConstant
  | .orFallback =>
    cur.isFlagged = false ∧ (∀ c ∈ children, c.kind = .concatenation) ∧
      ∀ c ∈ otherwise, c.kind.isConstant
  | .concatenation => cur.isFlagged = false ∧ otherwise = []

inductive Typed (s : Scope ρ) : FlaggedTy → Node → Prop where
  | mk {cur ty : FlaggedTy} {kind : NodeKind} {span : Span} {children otherwise : List Node}
      (fits : Fits s cur ty children otherwise kind)
      (below : ∀ c ∈ children, Typed s (kind.passes cur ty) c)
      (aside : ∀ c ∈ otherwise, Typed s cur c) :
      Typed s cur (.mk kind ty span children otherwise)

namespace Typed

variable {s : Scope ρ} {cur : FlaggedTy}

theorem fits {kind : NodeKind} {ty : FlaggedTy} {span : Span} {children otherwise : List Node}
    (h : Typed s cur (.mk kind ty span children otherwise)) :
    Fits s cur ty children otherwise kind := by
  cases h; assumption

theorem children {kind : NodeKind} {ty : FlaggedTy} {span : Span} {children otherwise : List Node}
    (h : Typed s cur (.mk kind ty span children otherwise)) :
    ∀ c ∈ children, Typed s (kind.passes cur ty) c := by
  cases h; assumption

theorem otherwise {kind : NodeKind} {ty : FlaggedTy} {span : Span} {children otherwise : List Node}
    (h : Typed s cur (.mk kind ty span children otherwise)) : ∀ c ∈ otherwise, Typed s cur c := by
  cases h; assumption

theorem leaf {kind : NodeKind} {ty : FlaggedTy} {span : Span} (h : Fits s cur ty [] [] kind) :
    Typed s cur (.leaf kind ty span) :=
  .mk h (by simp) (by simp)

theorem constant (value : Fallback) (ty : FlaggedTy) (span : Span) :
    Typed s cur (.leaf (.default value) ty span) :=
  leaf ⟨rfl, rfl⟩

theorem missing (name : String) (ty : FlaggedTy) (span : Span) :
    Typed s cur (.leaf (.notFound name) ty span) :=
  leaf ⟨by simp, by simp, rfl⟩

theorem print {value : Option Fallback} {span : Span} (h : cur.ty.isPrintable) :
    Typed s cur (.leaf (.print value) cur span) :=
  leaf ⟨rfl, h, rfl, rfl⟩

theorem literal (text : String) (span : Span) : Typed s cur (literalNode text span) :=
  leaf ⟨rfl, rfl⟩

theorem of_mem_append {ty : FlaggedTy} {a b : List Node} (ha : ∀ c ∈ a, Typed s ty c)
    (hb : ∀ c ∈ b, Typed s ty c) : ∀ c ∈ a ++ b, Typed s ty c := by
  intro c hc
  rcases List.mem_append.mp hc with hc | hc
  · exact ha c hc
  · exact hb c hc

theorem withOtherwise {n : Node} (h : Typed s cur n) (hg : n.kind.isGuard) (value : Fallback)
    (ty : FlaggedTy) (span : Span) :
    Typed s cur (n.withOtherwise (n.otherwise ++ [.leaf (.default value) ty span])) := by
  obtain ⟨kind, nty, nspan, children, otherwise⟩ := n
  have hconst : ∀ c ∈ [Node.leaf (.default value) ty span], Typed s cur c := by
    simpa using constant value ty span
  have hall : ∀ {o : List Node}, (∀ c ∈ o, c.kind.isConstant) →
      ∀ c ∈ o ++ [Node.leaf (.default value) ty span], c.kind.isConstant := by
    intro o ho c hc
    rcases List.mem_append.mp hc with hc | hc
    · exact ho c hc
    · rw [List.mem_singleton.mp hc]
      rfl
  refine .mk ?_ h.children (of_mem_append h.otherwise hconst)
  have hf := h.fits
  cases kind with
  | optionalGuard => exact ⟨hf.1, hf.2.1, hf.2.2.1, hall hf.2.2.2⟩
  | nullableGuard => exact ⟨hf.1, hf.2.1, hf.2.2.1, hf.2.2.2.1, hall hf.2.2.2.2⟩
  | _ => simp [Node.kind, NodeKind.isGuard] at hg

end Typed

/-- Nodes of a path, last first, that lead from `base` to values of type `cur`: with a node for such
values put below the last one they are a typed tree. -/
inductive Leads (s : Scope ρ) (base : FlaggedTy) : List Node → FlaggedTy → Prop where
  | start : Leads s base [] base
  | link {links : List Node} {cur ty : FlaggedTy} {n : Node} (leads : Leads s base links cur)
      (grows : ∀ below, Typed s ty below →
        Typed s cur (n.withChildren (n.children ++ [below]))) :
      Leads s base (n :: links) ty

def graft (links : List Node) (below : Node) : Node :=
  links.foldl (fun below n => n.withChildren (n.children ++ [below])) below

theorem Path.close_cons (p : Path) (span : Span) {last : Node} {before : List Node}
    (h : p.links = last :: before) : p.close span = graft before last := by
  simp [Path.close, h, graft]

def addDefault (value : Fallback) (ty : FlaggedTy) (span : Span) (n : Node) : Node :=
  if n.kind.isGuard then n.withOtherwise (n.otherwise ++ [.leaf (.default value) ty span]) else n

namespace Leads

variable {s : Scope ρ} {base cur : FlaggedTy} {links : List Node}

theorem graft (h : Leads s base links cur) {below : Node} (hb : Typed s cur below) :
    Typed s base (graft links below) := by
  induction h generalizing below with
  | start => exact hb
  | link _ grows ih => exact ih (grows below hb)

theorem addDefault (h : Leads s base links cur) (value : Fallback) (ty : FlaggedTy)
    (span : Span) : Leads s base (links.map (addDefault value ty span)) cur := by
  induction h with
  | start => exact .start
  | @link links cur lty n _ grows ih =>
    refine .link ih fun below hb => ?_
    have h := grows below hb
    obtain ⟨kind, nty, nspan, children, otherwise⟩ := n
    unfold Tree.addDefault
    split
    next hg => exact h.withOtherwise hg value ty span
    next => exact h

theorem push (h : Leads s base links cur) {kind : NodeKind} {ty : FlaggedTy} {span : Span}
    (hp : kind.passes cur ty = ty)
    (hf : ∀ below, Typed s ty below → Fits s cur ty [below] [] kind) :
    Leads s base (.mk kind ty span [] [] :: links) ty := by
  refine .link h fun below hb => ?_
  refine .mk (hf below hb) ?_ (by simp [Node.otherwise])
  simpa [Node.children, Node.kind, Node.ty, hp] using hb

end Leads

end PathTemplate.Tree
