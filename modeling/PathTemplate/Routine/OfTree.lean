import PathTemplate.Routine.Basic
import PathTemplate.Tree.Basic

/-!
The routine of a render tree. Every node that computes a value writes it to a temporary of its own,
which its children read; guards leave the value where it is.
-/

namespace PathTemplate.Routine

open PathTemplate.Tree

inductive TempKind where
  | field
  | method
  | map
  | math
  | cast
  | call
  deriving DecidableEq, Repr

def TempKind.name : TempKind → String
  | .field => "field"
  | .method => "method"
  | .map => "map"
  | .math => "math"
  | .cast => "cast"
  | .call => "call"

structure Supply where
  temps : List TempKind
  sinks : Nat

namespace Supply

def empty : Supply := ⟨[], 0⟩

def temp (s : Supply) (kind : TempKind) : Nat × Supply :=
  (s.temps.length + 1, { s with temps := kind :: s.temps })

def sink (s : Supply) : Nat × Supply := (s.sinks + 1, { s with sinks := s.sinks + 1 })

/-- Names by kind, each kind counted from 0. The temporaries are given last first. -/
def tempNames : List TempKind → List String
  | [] => ["input"]
  | k :: earlier => tempNames earlier ++ [k.name ++ "_" ++ toString (earlier.count k)]

end Supply

structure DepthError where
  max : Nat
  span : Span
  deriving DecidableEq, Repr

def DepthError.message (e : DepthError) : String :=
  "expression nests deeper than the limit of " ++ toString e.max ++ " levels"

/-- Where statements are made for: the nesting, the temporary that holds the current value, the
sink written to, and the type of the value. -/
structure Context where
  depth : Nat
  value : Nat
  sink : Nat
  ty : FlaggedTy

namespace Context

def descend (cx : Context) (value : Nat) (ty : FlaggedTy) : Context :=
  { cx with depth := cx.depth + 1, value, ty }

def deeper (cx : Context) : Context := { cx with depth := cx.depth + 1 }

def into (cx : Context) (sink : Nat) : Context := { cx with sink }

end Context

/-- A value whose type is an unflagged primitive needs no check. -/
def checkFor (ty : FlaggedTy) (default : Option Fallback) : EmitCheck :=
  if ty.ty.isPrimitive && !ty.isFlagged then .unchecked
  else
    match default with
    | some d => .default d
    | none => .skipAbsent

mutual

def node (max : Nat) (cx : Context) : Node → Supply → Except DepthError (List Stmt × Supply)
  | .mk kind ty span children otherwise, s => do
    if max < cx.depth then .error ⟨max, span⟩
    else
      match kind with
      | .root .. => block max cx children s
      | .literal text => return ([.text text], s)
      | .field owner name =>
        let (dst, s) := s.temp .field
        let (rest, s) ← block max (cx.descend dst ty) children s
        return (.load dst cx.value (.field owner name) :: rest, s)
      | .method owner name =>
        let (dst, s) := s.temp .method
        let (rest, s) ← block max (cx.descend dst ty) children s
        return (.load dst cx.value (.method owner name) :: rest, s)
      | .mapAccess key =>
        let (dst, s) := s.temp .map
        let (rest, s) ← block max (cx.descend dst ty) children s
        return (.load dst cx.value (.key key) :: rest, s)
      | .math op operand =>
        let (dst, s) := s.temp .math
        let (rest, s) ← block max (cx.descend dst ty) children s
        return (.math dst cx.value op operand ty.ty :: rest, s)
      | .cast target =>
        let (dst, s) := s.temp .cast
        let (rest, s) ← block max (cx.descend dst ty) children s
        return (.cast dst cx.value target :: rest, s)
      | .function name args =>
        let (dst, s) := s.temp .call
        let (rest, s) ← block max (cx.descend dst ty) children s
        return (.call dst name args :: rest, s)
      | .optionalGuard =>
        let (present, s) ← block max (cx.descend cx.value ty) children s
        let (absent, s) ← block max cx.deeper otherwise s
        return ([.ifPresent .optional cx.value present absent], s)
      | .nullableGuard =>
        let (present, s) ← block max (cx.descend cx.value ty) children s
        let (absent, s) ← block max cx.deeper otherwise s
        return ([.ifPresent .nullable cx.value present absent], s)
      | .orFallback =>
        let (sink, s) := s.sink
        let (bodies, s) ← alternatives max (cx.deeper.into sink) children s
        let (absent, s) ← block max cx.deeper otherwise s
        return ([.firstNonEmpty sink cx.sink bodies absent], s)
      | .concatenation =>
        let (sink, s) := s.sink
        let (body, s) ← block max (cx.deeper.into sink) children s
        return ([.capture sink cx.sink body], s)
      | .print default => return ([.emit cx.value (checkFor cx.ty default)], s)
      | .default value => return ([.emitDefault value], s)
      | .notFound name =>
        let (rest, s) ← block max cx children s
        return (.missing name :: rest, s)

def block (max : Nat) (cx : Context) : List Node → Supply → Except DepthError (List Stmt × Supply)
  | [], s => .ok ([], s)
  | n :: ns, s => do
    let (stmts, s) ← node max cx n s
    let (more, s) ← block max cx ns s
    return (stmts ++ more, s)

/-- The bodies of alternatives. One that is a concatenation needs no sink of its own here. -/
def alternatives (max : Nat) (cx : Context) :
    List Node → Supply → Except DepthError (List (List Stmt) × Supply)
  | [], s => .ok ([], s)
  | .mk .concatenation _ _ children _ :: ns, s => do
    let (body, s) ← block max cx.deeper children s
    let (more, s) ← alternatives max cx ns s
    return (body :: more, s)
  | n :: ns, s => do
    let (body, s) ← node max cx n s
    let (more, s) ← alternatives max cx ns s
    return (body :: more, s)

end

def signature (n : Node) : String × String :=
  match n.kind with
  | .root input sink => (input, sink)
  | kind => (kind.name, "")

def ofTree (max : Nat) (name : String) (n : Node) : Except DepthError Routine := do
  let (input, sink) := signature n
  let (body, s) ← block max ⟨0, 0, 0, n.ty⟩ n.children .empty
  return ⟨name, input, sink, Supply.tempNames s.temps, body⟩

end PathTemplate.Routine
