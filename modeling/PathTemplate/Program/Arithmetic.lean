import PathTemplate.Constant

namespace PathTemplate

open Numeric

namespace Operator

/-- Division cuts toward zero and the remainder has the sign of the dividend. -/
def onInt32 (a b : Int32) : Operator → Option Int32
  | .add => some (a + b)
  | .sub => some (a - b)
  | .mul => some (a * b)
  | .div => if b = 0 then none else some (a / b)
  | .rem => if b = 0 then none else some (a % b)

def onInt64 (a b : Int64) : Operator → Option Int64
  | .add => some (a + b)
  | .sub => some (a - b)
  | .mul => some (a * b)
  | .div => if b = 0 then none else some (a / b)
  | .rem => if b = 0 then none else some (a % b)

def onBinary64 (a b : Binary64) : Operator → Binary64
  | .add => a.add b
  | .sub => a.sub b
  | .mul => a.mul b
  | .div => a.div b
  | .rem => a.rem b

end Operator

def Operand.binary64 : Operand → Binary64
  | .int n => .ofInt n.toInt
  | .float x => x

namespace Value

variable {ρ : Type}

/-- A value combined with an operand in a type. Single precision is computed in double precision
from operands rounded first, and rounded back. -/
def math (v : Value ρ) (op : Operator) (operand : Operand) (ty : Ty) : Value ρ :=
  match ty with
  | .int =>
    match v.int64?, operand with
    | some a, .int b =>
      match op.onInt32 a.toInt32 b.toInt32 with
      | some n => .int n
      | none => .null
    | _, _ => .null
  | .long =>
    match v.int64?, operand with
    | some a, .int b =>
      match op.onInt64 a b with
      | some n => .long n
      | none => .null
    | _, _ => .null
  | .float =>
    match v.binary64? with
    | some a => .float (op.onBinary64 a.narrow.widen operand.binary64.narrow.widen).narrow
    | none => .null
  | .double =>
    match v.binary64? with
    | some a => .double (op.onBinary64 a operand.binary64)
    | none => .null
  | _ => .null

/-- A number cut to a whole one of 64 bits. -/
def wholeInt64? : Value ρ → Option Int64
  | .float x => some x.widen.toInt64
  | .double x => some x.toInt64
  | v => v.int64?

/-- A value turned into a type; narrower whole numbers keep the low bits. -/
def cast (v : Value ρ) (target : Ty) : Value ρ :=
  match v with
  | .null => .null
  | v =>
    match target with
    | .string => (v.text?.map .string).getD .null
    | .long =>
      match v with
      | .dateTime t => .long (.ofInt t.millis)
      | v => (v.wholeInt64?.map .long).getD .null
    | .byte => (v.wholeInt64?.map fun n => .byte n.toInt8).getD .null
    | .short => (v.wholeInt64?.map fun n => .short n.toInt16).getD .null
    | .int => (v.wholeInt64?.map fun n => .int n.toInt32).getD .null
    | .float => (v.binary64?.map fun x => .float x.narrow).getD .null
    | .double => (v.binary64?.map .double).getD .null
    | _ => v

end Value

end PathTemplate
