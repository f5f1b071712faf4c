import PathTemplate.Function
import PathTemplate.Routine.Basic
import PathTemplate.Schema

namespace PathTemplate

/-- A bound step of navigation. -/
inductive Bound (ρ : Type) where
  | member (read : ρ → Value ρ)
  | key (name : String)

inductive BoundArgument (ρ : Type) where
  | constant (c : Constant)
  | path (steps : List (Bound ρ))
  | null

inductive Op (ρ : Type) where
  | text (s : String)
  | load (dst src : Nat) (step : Bound ρ)
  | math (dst src : Nat) (op : Operator) (operand : Operand) (ty : Ty)
  | cast (dst src : Nat) (target : Ty)
  | call (dst : Nat) (function : Function ρ) (args : List (BoundArgument ρ))
  | ifPresent (value : Nat) (present otherwise : List (Op ρ))
  | emit (value : Nat) (check : EmitCheck)
  | emitDefault (value : Fallback)
  | capture (body : List (Op ρ))
  | firstNonEmpty (alternatives : List (List (Op ρ))) (otherwise : List (Op ρ))

structure Program (ρ : Type) where
  name : String
  input : String
  sink : String
  registers : Nat
  body : List (Op ρ)
  listing : String

end PathTemplate
