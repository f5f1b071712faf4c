import PathTemplate.Proofs.Tree.Meaning
import PathTemplate.Routine.Listing

/-!
Listings as a reader takes them, who knows variables by their names alone. A declaration hides
earlier ones of its name, and what a block declares is gone at its end. A name that stands for
nothing in scope, or for something else than it is used as, has no meaning.
-/

namespace PathTemplate

open PathTemplate.Routine

variable {ρ σ : Type}

inductive Variable (ρ σ : Type) where
  | value (v : Value ρ)
  | params (p : Params ρ)
  | sink (s : σ)

abbrev Locals (ρ σ : Type) := List (String × Variable ρ σ)

namespace Locals

variable (b : Locals ρ σ) (name : String)

def value? : Option (Value ρ) :=
  match b.lookup name with
  | some (.value v) => some v
  | _ => none

def params? : Option (Params ρ) :=
  match b.lookup name with
  | some (.params p) => some p
  | _ => none

def sink? : Option σ :=
  match b.lookup name with
  | some (.sink s) => some s
  | _ => none

def assign (name : String) (s : σ) : Locals ρ σ → Locals ρ σ
  | [] => []
  | x :: rest => if x.1 = name then (name, .sink s) :: rest else x :: assign name s rest

def update (f : σ → σ) : Option (Locals ρ σ) := (b.sink? name).map fun s => assign name (f s) b

def leave (inner : Locals ρ σ) : Locals ρ σ := inner.drop (inner.length - b.length)

variable {b : Locals ρ σ} {name other : String} {news : Locals ρ σ} {s s' : σ}

theorem length_assign : (assign name s b).length = b.length := by
  induction b with
  | nil => rfl
  | cons x rest ih =>
    unfold assign
    split
    · rfl
    · simp [ih]

/-- What was declared in a block is gone after it, what was assigned in it is not. -/
theorem leave_append {inner : Locals ρ σ} (h : inner.length = b.length) :
    b.leave (news ++ inner) = inner := by
  simp [leave, h]

theorem lookup_append (h : ∀ x ∈ news, x.1 ≠ name) : (news ++ b).lookup name = b.lookup name := by
  induction news with
  | nil => rfl
  | cons x rest ih =>
    obtain ⟨hx, hrest⟩ := List.forall_mem_cons.mp h
    have hne : (name == x.1) = false := beq_false_of_ne hx.symm
    rw [List.cons_append, List.lookup_cons, hne, ih hrest]

theorem assign_append (h : ∀ x ∈ news, x.1 ≠ name) :
    assign name s (news ++ b) = news ++ assign name s b := by
  induction news with
  | nil => rfl
  | cons x rest ih =>
    obtain ⟨hx, hrest⟩ := List.forall_mem_cons.mp h
    rw [List.cons_append, assign, if_neg hx, ih hrest, List.cons_append]

theorem assign_cons_self (v : Variable ρ σ) :
    assign name s ((name, v) :: b) = (name, .sink s) :: b := if_pos rfl

theorem assign_cons_of_ne (h : other ≠ name) (v : Variable ρ σ) :
    assign name s ((other, v) :: b) = (other, v) :: assign name s b := if_neg h

theorem assign_assign : assign name s' (assign name s b) = assign name s' b := by
  induction b with
  | nil => rfl
  | cons x rest ih =>
    by_cases h : x.1 = name
    · simp [assign, h]
    · simp [assign, h, ih]

theorem lookup_assign_of_ne (h : name ≠ other) :
    (assign name s b).lookup other = b.lookup other := by
  induction b with
  | nil => rfl
  | cons x rest ih =>
    unfold assign
    split
    next hx =>
      have hne : (other == x.1) = false := beq_false_of_ne (hx ▸ h.symm)
      have hne' : (other == name) = false := beq_false_of_ne h.symm
      rw [List.lookup_cons, List.lookup_cons, hne, hne']
    next => rw [List.lookup_cons, List.lookup_cons, ih]

theorem lookup_assign_self {v : Variable ρ σ} (h : b.lookup name = some v) :
    (assign name s b).lookup name = some (.sink s) := by
  induction b with
  | nil => cases h
  | cons x rest ih =>
    unfold assign
    split
    · exact List.lookup_cons_self
    next hx =>
      have hne : (name == x.1) = false := beq_false_of_ne (Ne.symm hx)
      rw [List.lookup_cons, hne] at h ⊢
      exact ih h

theorem assign_of_lookup (h : b.lookup name = some (.sink s)) : assign name s b = b := by
  induction b with
  | nil => rfl
  | cons x rest ih =>
    obtain ⟨other, v⟩ := x
    by_cases hx : other = name
    · rw [hx, List.lookup_cons_self, Option.some.injEq] at h
      rw [hx, assign_cons_self, h]
    · have hne : (name == other) = false := beq_false_of_ne (Ne.symm hx)
      rw [List.lookup_cons, hne] at h
      rw [assign_cons_of_ne hx, ih h]

theorem value?_eq {v : Value ρ} (h : b.lookup name = some (.value v)) : b.value? name = some v := by
  rw [value?, h]

theorem params?_eq {p : Params ρ} (h : b.lookup name = some (.params p)) :
    b.params? name = some p := by
  rw [params?, h]

theorem sink?_eq (h : b.lookup name = some (.sink s)) : b.sink? name = some s := by
  rw [sink?, h]

theorem update_eq {f : σ → σ} (h : b.lookup name = some (.sink s)) :
    b.update name f = some (assign name (f s) b) := by
  rw [update, sink?_eq h, Option.map_some]

end Locals

namespace ByName

def argument (schema : Schema ρ) (b : Locals ρ σ) : Argument → Option (Value ρ)
  | .constant c => some c.value
  | .path steps => (b.value? "input").map fun v => steps.foldl (Tree.access schema) v
  | .null => some .null

def fallback (b : Locals ρ σ) : Fallback → Option (Value ρ)
  | .constant c => some c.value
  | .param name => (b.params? "params").map fun p => (p.get? name).getD .null

/-- The variables inside of a guard. One for options binds the name anew. -/
def narrowed (guard : GuardKind) (name : String) (v : Value ρ) (b : Locals ρ σ) : Locals ρ σ :=
  match guard with
  | .optional => (name, .value v) :: b
  | .nullable => b

section

variable [Sink σ] (schema : Schema ρ) (functions : Functions ρ) (temps : List String)

mutual

def stmt (sink : Nat) : Stmt → Locals ρ σ → Option (Locals ρ σ)
  | .text text, b => b.update (sinkName sink) fun s => Sink.accept s (Value.string text : Value ρ)
  | .load dst src access, b => do
    let v ← b.value? (tempName temps src)
    return (tempName temps dst, .value (Tree.access schema v access)) :: b
  | .math dst src op operand ty, b => do
    let v ← b.value? (tempName temps src)
    return (tempName temps dst, .value (v.math op operand ty)) :: b
  | .cast dst src target, b => do
    let v ← b.value? (tempName temps src)
    return (tempName temps dst, .value (v.cast target)) :: b
  | .call dst function args, b => do
    let values ← args.mapM (argument schema b)
    let result := (functions.lookup? function args.length).map fun f => f.body values
    return (tempName temps dst, .value (result.getD .null)) :: b
  | .ifPresent guard value present absent, b => do
    let name := tempName temps value
    let v ← b.value? name
    let inner ←
      if v.isNull then block sink absent b else block sink present (narrowed guard name v b)
    return b.leave inner
  | .emit value check, b => do
    let v ← b.value? (tempName temps value)
    match check with
    | .unchecked => b.update (sinkName sink) fun s => Sink.accept s v
    | .skipAbsent => if v.isNull then some b else b.update (sinkName sink) fun s => Sink.accept s v
    | .default f =>
      let default ← fallback b f
      b.update (sinkName sink) fun s => Sink.accept s (if v.isNull then default else v)
  | .emitDefault f, b => do
    let v ← fallback b f
    b.update (sinkName sink) fun s => Sink.accept s v
  | .capture inner parent body, b => do
    let s ← b.sink? (sinkName parent)
    let b ← block inner body ((sinkName inner, .sink (Sink.fresh s)) :: b)
    let written ← b.sink? (sinkName inner)
    b.update (sinkName parent) fun s => Sink.splice s written
  | .firstNonEmpty inner parent bodies absent, b => do
    let s ← b.sink? (sinkName parent)
    let b := (sinkName inner, .sink (Sink.fresh s)) :: b
    let (found, after) ← alternatives inner parent bodies b
    let after ← if found then some after else block parent absent after
    return Locals.leave b after
  | .missing _, b => some b

def block (sink : Nat) : List Stmt → Locals ρ σ → Option (Locals ρ σ)
  | [], b => some b
  | st :: rest, b => do
    let b ← stmt sink st b
    block sink rest b

def alternatives (inner parent : Nat) : List (List Stmt) → Locals ρ σ → Option (Bool × Locals ρ σ)
  | [], b => some (false, b)
  | body :: rest, b => do
    let b ← b.update (sinkName inner) Sink.reset
    let b ← block inner body b
    let written ← b.sink? (sinkName inner)
    if Sink.isEmpty written then alternatives inner parent rest b
    else do
      let b ← b.update (sinkName parent) fun s => Sink.splice s written
      return (true, b)

end

end

end ByName

/-- Runs the listing of a routine, which starts with its parameters in scope. Gives what its sink
holds at the end. -/
def Routine.runByName [Sink σ] (schema : Schema ρ) (functions : Functions ρ) (r : Routine)
    (env : Run.Env ρ) (s : σ) : Option σ := do
  let b ← ByName.block schema functions r.temps 0 r.body
    [("input", .value (.record env.input)), ("params", .params env.params), ("acc", .sink s)]
  b.sink? "acc"

end PathTemplate
