import PathTemplate.Digest
import PathTemplate.Packed.Ty
import PathTemplate.Value

namespace PathTemplate

inductive MemberKind where
  | field
  | method
  deriving DecidableEq, Repr

structure Member (ρ : Type) where
  name : String
  kind : MemberKind
  ty : FlaggedTy
  /-- Null for a record of another type. -/
  read : ρ → Value ρ

/-- A record type. `id` tells types apart, `name` is what templates and messages call it. -/
structure Shape (ρ : Type) where
  id : String
  name : String
  members : List (Member ρ)

inductive SchemaError where
  | duplicateName (name : String)
  | duplicateMember (record member : String)
  deriving DecidableEq, Repr

def SchemaError.message : SchemaError → String
  | .duplicateName name => "record name `" ++ name ++ "` is already registered for another type"
  | .duplicateMember record member => "record `" ++ record ++ "` declares `" ++ member ++ "` twice"

namespace Shape

variable {ρ : Type}

def member? (s : Shape ρ) (kind : MemberKind) (name : String) : Option (Member ρ) :=
  s.members.find? fun m => m.kind == kind && m.name == name

def field? (s : Shape ρ) (name : String) : Option (Member ρ) := s.member? .field name

def method? (s : Shape ρ) (name : String) : Option (Member ρ) := s.member? .method name

/-- The first name that repeats an earlier member of its kind. -/
def duplicate? (earlier : List (Member ρ)) : List (Member ρ) → Option String
  | [] => none
  | m :: rest =>
    if earlier.any fun e => e.kind == m.kind && e.name == m.name then some m.name
    else duplicate? (m :: earlier) rest

end Shape

namespace Packed

def member {ρ : Type} (m : Member ρ) : List UInt8 :=
  string m.name ++ flag (m.kind == .method) ++ flaggedTy m.ty

def shape {ρ : Type} (s : Shape ρ) : List UInt8 := string s.name ++ list member s.members

end Packed

structure Schema (ρ : Type) where
  shapes : List (Shape ρ)

namespace Schema

variable {ρ : Type}

def empty : Schema ρ := ⟨[]⟩

def shape? (s : Schema ρ) (name : String) : Option (Shape ρ) :=
  s.shapes.find? (·.name == name)

def shapeOf? (s : Schema ρ) (id : String) : Option (Shape ρ) := s.shapes.find? (·.id == id)

/-- Adds a record type. The same type again changes nothing. -/
def register (s : Schema ρ) (shape : Shape ρ) : Except SchemaError (Schema ρ) :=
  match s.shape? shape.name with
  | some existing => if existing.id = shape.id then .ok s else .error (.duplicateName shape.name)
  | none =>
    match Shape.duplicate? [] shape.members with
    | some member => .error (.duplicateMember shape.name member)
    | none => .ok ⟨s.shapes ++ [shape]⟩

def size (s : Schema ρ) : Nat := s.shapes.length

/-- All names, members and types, in an order that does not depend on that of registration. -/
def material (s : Schema ρ) : List UInt8 :=
  Packed.list Packed.shape (s.shapes.mergeSort fun a b => a.name ≤ b.name)

def fingerprint (h : HashFunction) (s : Schema ρ) : ContentHash := h s.material

end Schema

end PathTemplate
