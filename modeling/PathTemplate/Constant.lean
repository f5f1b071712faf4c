import PathTemplate.Ty
import PathTemplate.Value

namespace PathTemplate

open Numeric

inductive Constant where
  | bool (b : Bool)
  | byte (n : Int8)
  | short (n : Int16)
  | int (n : Int32)
  | long (n : Int64)
  | float (x : Binary32)
  | double (x : Binary64)
  | string (s : String)
  | enum (name : String)
  deriving DecidableEq, Repr

namespace Constant

def value {ρ : Type} : Constant → Value ρ
  | .bool b => .bool b
  | .byte n => .byte n
  | .short n => .short n
  | .int n => .int n
  | .long n => .long n
  | .float x => .float x
  | .double x => .double x
  | .string s => .string s
  | .enum name => .enum name

/-- The constant that stands for a value. Only scalars, texts and enums have one. -/
def ofValue? {ρ : Type} : Value ρ → Option Constant
  | .bool b => some (.bool b)
  | .byte n => some (.byte n)
  | .short n => some (.short n)
  | .int n => some (.int n)
  | .long n => some (.long n)
  | .float x => some (.float x)
  | .double x => some (.double x)
  | .string s => some (.string s)
  | .enum name => some (.enum name)
  | _ => none

def ty : Constant → Ty
  | .bool _ => .bool
  | .byte _ => .byte
  | .short _ => .short
  | .int _ => .int
  | .long _ => .long
  | .float _ => .float
  | .double _ => .double
  | .string _ => .string
  | .enum name => .enum name

def text : Constant → String
  | .bool b => if b then "true" else "false"
  | .byte n => toString n.toInt ++ "_i8"
  | .short n => toString n.toInt ++ "_i16"
  | .int n => toString n.toInt ++ "_i32"
  | .long n => toString n.toInt ++ "_i64"
  | .float x => x.markedText ++ "_f32"
  | .double x => x.markedText ++ "_f64"
  | .string s => Text.quoted s
  | .enum name => "enum " ++ Text.quoted name

end Constant

/-- What is written in place of an absent value. -/
inductive Fallback where
  | constant (c : Constant)
  | param (name : String)
  deriving DecidableEq, Repr

def Fallback.text : Fallback → String
  | .constant c => c.text
  | .param name => "params[" ++ Text.quoted name ++ "]"

inductive Operator where
  | add
  | sub
  | mul
  | div
  | rem
  deriving DecidableEq, Repr

namespace Operator

def symbol : Operator → Char
  | .add => '+'
  | .sub => '-'
  | .mul => '*'
  | .div => '/'
  | .rem => '%'

def ofSymbol? : Char → Option Operator
  | '+' => some .add
  | '-' => some .sub
  | '*' => some .mul
  | '/' => some .div
  | '%' => some .rem
  | _ => none

def text (op : Operator) : String := String.ofList [op.symbol]

end Operator

inductive Operand where
  | int (n : Int64)
  | float (x : Binary64)
  deriving DecidableEq, Repr

namespace Operand

def isZero : Operand → Bool
  | .int n => n == 0
  | .float x => x.isZero

def text : Operand → String
  | .int n => toString n.toInt
  | .float x => x.markedText

end Operand

end PathTemplate
