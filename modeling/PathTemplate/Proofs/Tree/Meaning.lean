import PathTemplate.Program.Run
import PathTemplate.Proofs.Sink.Appending
import PathTemplate.Schema
import PathTemplate.Function
import PathTemplate.Tree.Basic

namespace PathTemplate.Tree

variable {ρ σ : Type}

structure World (ρ : Type) where
  schema : Schema ρ
  functions : Functions ρ
  env : Run.Env ρ

/-- The member that a step into a record names. -/
def memberAt? (schema : Schema ρ) : Access → Option (Member ρ)
  | .field owner name => (schema.shape? owner).bind (·.field? name)
  | .method owner name => (schema.shape? owner).bind (·.method? name)
  | .key _ => none

/-- A step from a value. A record answers for its members and a map for its keys; there is nothing
behind any other step. -/
def access (schema : Schema ρ) (v : Value ρ) (a : Access) : Value ρ :=
  match a, v with
  | .key name, .map _ lookup => lookup name
  | .key _, _ => .null
  | a, .record r => ((memberAt? schema a).map fun m => m.read r).getD .null
  | _, _ => .null

namespace World

def argument (w : World ρ) : Argument → Value ρ
  | .constant c => c.value
  | .path steps => steps.foldl (access w.schema) (.record w.env.input)
  | .null => .null

def call (w : World ρ) (name : String) (args : List Argument) : Value ρ :=
  ((w.functions.lookup? name args.length).map fun f => f.body (args.map w.argument)).getD .null

/-- The value that a node makes of the current one, for the kinds that make one. -/
def computed? (w : World ρ) (ty : Ty) (v : Value ρ) : NodeKind → Option (Value ρ)
  | .field owner name => some (access w.schema v (.field owner name))
  | .method owner name => some (access w.schema v (.method owner name))
  | .mapAccess key => some (access w.schema v (.key key))
  | .math op operand => some (v.math op operand ty)
  | .cast target => some (v.cast target)
  | .function name args => some (w.call name args)
  | _ => none

end World

def checked (ty : FlaggedTy) : Bool := !(ty.ty.isPrimitive && !ty.isFlagged)

mutual

/-- Writes a node from the value `v` of type `cur`. -/
def walk [Sink σ] (w : World ρ) (cur : FlaggedTy) (v : Value ρ) : Node → σ → σ
  | .mk kind ty _ children otherwise, s =>
    match w.computed? ty.ty v kind with
    | some v => walkAll w ty v children s
    | none =>
      match kind with
      | .optionalGuard | .nullableGuard =>
        if v.isNull then walkAll w cur v otherwise s else walkAll w ty v children s
      | .orFallback =>
        match firstWritten w cur v children (Sink.fresh s) with
        | some inner => Sink.splice s inner
        | none => walkAll w cur v otherwise s
      | .concatenation => Sink.splice s (walkAll w cur v children (Sink.fresh s))
      | .print (some value) =>
        if v.isNull && checked cur then Run.fallback w.env value s else Sink.accept s v
      | .print none => Sink.accept s v
      | .literal text => Sink.accept s (Value.string text : Value ρ)
      | .default value => Run.fallback w.env value s
      -- The root and names that lead nowhere write nothing themselves.
      | _ => walkAll w cur v children s

def walkAll [Sink σ] (w : World ρ) (cur : FlaggedTy) (v : Value ρ) : List Node → σ → σ
  | [], s => s
  | n :: ns, s => walkAll w cur v ns (walk w cur v n s)

def firstWritten [Sink σ] (w : World ρ) (cur : FlaggedTy) (v : Value ρ) :
    List Node → σ → Option σ
  | [], _ => none
  | n :: ns, inner =>
    let inner := walk w cur v n (Sink.reset inner)
    if Sink.isEmpty inner then firstWritten w cur v ns inner else some inner

end

section

variable [Sink σ] (w : World ρ)

theorem walkAll_append (cur : FlaggedTy) (v : Value ρ) (a b : List Node) (s : σ) :
    walkAll w cur v (a ++ b) s = walkAll w cur v b (walkAll w cur v a s) := by
  induction a generalizing s with
  | nil => rfl
  | cons n ns ih => simp only [List.cons_append, walkAll, ih]

end

section Appending

variable [Sink σ] [LawfulSink σ] (w : World ρ)

open LawfulSink

theorem fallback_appends (env : Run.Env ρ) (f : Fallback) :
    Appends (Run.fallback env f : σ → σ) := by
  cases f with
  | constant c => exact Appends.accept _
  | param name =>
    cases h : env.params.get? name with
    | none => exact Appends.id.congr fun s => by simp [Run.fallback, h]
    | some v => exact (Appends.accept v).congr fun s => by simp [Run.fallback, h]

theorem orElse_appends (first : σ → Option σ) {other : σ → σ} (ho : Appends other) :
    Appends (fun s => match first (Sink.fresh s) with
      | some inner => Sink.splice s inner
      | none => other s) where
  settings s := by
    cases first (Sink.fresh s) with
    | none => exact ho.settings s
    | some inner => exact fresh_splice s inner
  apart s := by
    simp only [fresh_fresh]
    cases first (Sink.fresh s) with
    | none => exact ho.apart s
    | some inner =>
      show Sink.splice s inner = Sink.splice s (Sink.splice (Sink.fresh s) inner)
      rw [← splice_assoc, splice_fresh]

mutual

theorem walk_appends (cur : FlaggedTy) (v : Value ρ) :
    (n : Node) → Appends (walk w cur v n : σ → σ)
  | .mk kind ty span children otherwise => by
    have hcur := walkAll_appends cur v children
    have hty := walkAll_appends ty v children
    have ho := walkAll_appends cur v otherwise
    cases hk : w.computed? ty.ty v kind with
    | some v' => exact (walkAll_appends ty v' children).congr fun s => by simp only [walk, hk]
    | none =>
      cases kind with
      | optionalGuard | nullableGuard =>
        cases hv : v.isNull with
        | true => exact ho.congr fun s => by simp [walk, hk, hv]
        | false => exact hty.congr fun s => by simp [walk, hk, hv]
      | orFallback =>
        exact (orElse_appends (firstWritten w cur v children) ho).congr fun s => by
          simp only [walk, hk]
      | concatenation =>
        exact (Appends.capture (walkAll w cur v children)).congr fun s => by simp only [walk, hk]
      | print default =>
        cases default with
        | none => exact (Appends.accept v).congr fun s => by simp only [walk, hk]
        | some value =>
          cases hv : v.isNull && checked cur with
          | true => exact (fallback_appends w.env value).congr fun s => by simp [walk, hk, hv]
          | false => exact (Appends.accept v).congr fun s => by simp [walk, hk, hv]
      | literal text =>
        exact (Appends.accept (Value.string text : Value ρ)).congr fun s => by simp only [walk, hk]
      | default value => exact (fallback_appends w.env value).congr fun s => by simp only [walk, hk]
      | _ => exact hcur.congr fun s => by simp only [walk, hk]

theorem walkAll_appends (cur : FlaggedTy) (v : Value ρ) :
    (ns : List Node) → Appends (walkAll w cur v ns : σ → σ)
  | [] => Appends.id
  | n :: ns => (walkAll_appends cur v ns).comp (walk_appends cur v n)

end

/-- What is written apart and put in could as well be written in place. -/
theorem walk_concatenation (cur ty : FlaggedTy) (v : Value ρ) (span : Span)
    (children otherwise : List Node) (s : σ) :
    walk w cur v (.mk .concatenation ty span children otherwise) s = walkAll w cur v children s := by
  simp only [walk, World.computed?]
  exact ((walkAll_appends w cur v children).apart s).symm

end Appending

end PathTemplate.Tree
