import PathTemplate.Digest
import PathTemplate.Schema
import PathTemplate.Ty
import PathTemplate.Value

namespace PathTemplate

structure Function (ρ : Type) where
  name : String
  arity : Nat
  returns : FlaggedTy
  /-- Takes one value for each argument, null for an absent one. -/
  body : List (Value ρ) → Value ρ

def Function.signature {ρ : Type} (f : Function ρ) : String :=
  f.name ++ "/" ++ toString f.arity ++ " -> " ++ f.returns.text

inductive FunctionError where
  | duplicate (name : String) (arity : Nat)
  deriving DecidableEq, Repr

def FunctionError.message : FunctionError → String
  | .duplicate name arity =>
    "function `" ++ name ++ "` with " ++ toString arity ++ " argument(s) is already registered"

/-- Functions, no two with the same name and number of arguments. -/
structure Functions (ρ : Type) where
  all : List (Function ρ)

namespace Functions

variable {ρ : Type}

def empty : Functions ρ := ⟨[]⟩

def lookup? (fs : Functions ρ) (name : String) (arity : Nat) : Option (Function ρ) :=
  fs.all.find? fun f => f.name == name && f.arity == arity

def register (fs : Functions ρ) (f : Function ρ) : Except FunctionError (Functions ρ) :=
  match fs.lookup? f.name f.arity with
  | some _ => .error (.duplicate f.name f.arity)
  | none => .ok ⟨fs.all ++ [f]⟩

def registerAll (fs : Functions ρ) (more : List (Function ρ)) :
    Except FunctionError (Functions ρ) :=
  more.foldlM register fs

def arities (fs : Functions ρ) (name : String) : List Nat :=
  ((fs.all.filter (·.name == name)).map (·.arity)).mergeSort (· ≤ ·)

def size (fs : Functions ρ) : Nat := fs.all.length

def packed (f : Function ρ) : List UInt8 :=
  Packed.string f.name ++ Packed.word f.arity ++ Packed.flaggedTy f.returns

/-- All signatures, in an order that does not depend on that of registration. -/
def material (fs : Functions ρ) : List UInt8 :=
  Packed.list packed
    (fs.all.mergeSort fun a b => a.name < b.name || (a.name == b.name && a.arity ≤ b.arity))

def fingerprint (h : HashFunction) (fs : Functions ρ) : ContentHash := h fs.material

end Functions

end PathTemplate
