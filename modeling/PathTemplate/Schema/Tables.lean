import PathTemplate.Schema
import Std.Data.HashMap

/-!
A schema in tables. Record types are found by name in one table and by identity through another, and
the members of each in a table for each kind. A call fills the tables one after the other, and one
that fails leaves them as far as it has got.
-/

namespace PathTemplate

variable {ρ : Type}

/-- Where members stand in the order of their declaration, by name. -/
structure Places where
  fields : Std.HashMap String Nat
  methods : Std.HashMap String Nat

namespace Places

def empty : Places := ⟨∅, ∅⟩

def table (p : Places) : MemberKind → Std.HashMap String Nat
  | .field => p.fields
  | .method => p.methods

def insert (p : Places) : MemberKind → String → Nat → Places
  | .field, name, i => { p with fields := p.fields.insert name i }
  | .method, name, i => { p with methods := p.methods.insert name i }

/-- Enters members from the `i`-th on, up to the first whose name is taken in its table. -/
def enter (p : Places) (i : Nat) : List (Member ρ) → Except String Places
  | [] => .ok p
  | m :: rest =>
    if m.name ∈ p.table m.kind then .error m.name
    else (p.insert m.kind m.name i).enter (i + 1) rest

end Places

structure Indexed (ρ : Type) where
  shape : Shape ρ
  places : Places

namespace Indexed

def member? (x : Indexed ρ) (kind : MemberKind) (name : String) : Option (Member ρ) :=
  (x.places.table kind)[name]?.bind (x.shape.members[·]?)

def field? (x : Indexed ρ) (name : String) : Option (Member ρ) := x.member? .field name

def method? (x : Indexed ρ) (name : String) : Option (Member ρ) := x.member? .method name

end Indexed

def Shape.index (s : Shape ρ) : Except SchemaError (Indexed ρ) :=
  match Places.empty.enter 0 s.members with
  | .ok places => .ok ⟨s, places⟩
  | .error member => .error (.duplicateMember s.name member)

/-- Record types by name, and names by identity. -/
structure Registry (ρ : Type) where
  byName : Std.HashMap String (Indexed ρ)
  byType : Std.HashMap String String

namespace Registry

def empty : Registry ρ := ⟨∅, ∅⟩

def accept (t : Shape ρ) : Option (Indexed ρ) → ExceptT SchemaError (StateM (Registry ρ)) Unit
  | some existing => if existing.shape.id = t.id then pure () else throw (.duplicateName t.name)
  | none => do
    let x ← MonadExcept.ofExcept t.index
    modify fun r => { r with byType := r.byType.insert t.id t.name }
    modify fun r => { r with byName := r.byName.insert t.name x }

def register (t : Shape ρ) : ExceptT SchemaError (StateM (Registry ρ)) Unit := do
  accept t (← get).byName[t.name]?

def shapeOf? (r : Registry ρ) (id : String) : Option (Indexed ρ) :=
  r.byType[id]?.bind (r.byName[·]?)

/-- All names, members and types in the order of the names, which may come in any order. -/
def material (r : Registry ρ) (names : List String) : List UInt8 :=
  Packed.list Packed.shape
    ((names.mergeSort fun a b => a ≤ b).filterMap fun name => r.byName[name]?.map Indexed.shape)

end Registry

end PathTemplate
