import PathTemplate.Access

/-!
Routines: a render tree as a sequence of statements over numbered temporaries. Temporary 0 holds the
input. Sinks are numbered too: 0 is the caller's, any other a fresh one.
-/

namespace PathTemplate

/-- How a value may be absent where a guard checks it. -/
inductive GuardKind where
  | optional
  | nullable
  deriving DecidableEq, Repr

inductive EmitCheck where
  | unchecked
  /-- An absent value writes nothing. -/
  | skipAbsent
  | default (value : Fallback)
  deriving DecidableEq, Repr

inductive Stmt where
  | text (s : String)
  | load (dst src : Nat) (access : Access)
  | math (dst src : Nat) (op : Operator) (operand : Operand) (ty : Ty)
  | cast (dst src : Nat) (target : Ty)
  | call (dst : Nat) (function : String) (args : List Argument)
  | ifPresent (guard : GuardKind) (value : Nat) (present otherwise : List Stmt)
  | emit (value : Nat) (check : EmitCheck)
  | emitDefault (value : Fallback)
  /-- Writes `body` into the fresh sink `sink` and puts that into `parent`. -/
  | capture (sink parent : Nat) (body : List Stmt)
  /-- Writes one alternative after the other into `sink`, emptied before each, and puts the first
  that is not empty into `parent`; writes `otherwise` when all are. -/
  | firstNonEmpty (sink parent : Nat) (alternatives : List (List Stmt)) (otherwise : List Stmt)
  | missing (name : String)
  deriving Inhabited

structure Routine where
  name : String
  input : String
  sink : String
  temps : List String
  body : List Stmt

namespace Stmt

def tag : Stmt → String
  | .text _ => "text"
  | .load .. => "load"
  | .math .. => "math"
  | .cast .. => "cast"
  | .call .. => "call"
  | .ifPresent .. => "if"
  | .emit .. => "emit"
  | .emitDefault _ => "default"
  | .capture .. => "capture"
  | .firstNonEmpty .. => "first"
  | .missing _ => "missing"

mutual

def walk : Stmt → List Stmt
  | .ifPresent g v t o => .ifPresent g v t o :: (walkAll t ++ walkAll o)
  | .capture s p b => .capture s p b :: walkAll b
  | .firstNonEmpty s p a o => .firstNonEmpty s p a o :: (walkEach a ++ walkAll o)
  | .text s => [.text s]
  | .load d s a => [.load d s a]
  | .math d s op n t => [.math d s op n t]
  | .cast d s t => [.cast d s t]
  | .call d f a => [.call d f a]
  | .emit v c => [.emit v c]
  | .emitDefault f => [.emitDefault f]
  | .missing n => [.missing n]

def walkAll : List Stmt → List Stmt
  | [] => []
  | s :: ss => walk s ++ walkAll ss

def walkEach : List (List Stmt) → List Stmt
  | [] => []
  | b :: bs => walkAll b ++ walkEach bs

end

end Stmt

namespace Routine

def walk (r : Routine) : List Stmt := Stmt.walkAll r.body

def loads (r : Routine) : Nat := r.walk.countP fun s => s.tag == "load"

end Routine

end PathTemplate
