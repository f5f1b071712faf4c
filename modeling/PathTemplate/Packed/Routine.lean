import PathTemplate.Packed.Ty
import PathTemplate.Routine.Basic

namespace PathTemplate.Packed

open Numeric

def constant : Constant → List UInt8
  | .bool b => variant 0 ++ flag b
  | .byte n => variant 1 ++ uint 1 n.toUInt8.toNat
  | .short n => variant 2 ++ uint 2 n.toUInt16.toNat
  | .int n => variant 3 ++ uint 4 n.toUInt32.toNat
  | .long n => variant 4 ++ uint 8 n.toUInt64.toNat
  | .float x => variant 5 ++ uint 4 x.bits.toNat
  | .double x => variant 6 ++ uint 8 x.bits.toNat
  | .string s => variant 7 ++ string s
  | .enum name => variant 8 ++ string name

def readConstant : Reader Constant := fun bytes => do
  let (index, bytes) ← readVariant bytes
  match index with
  | 0 =>
    let (b, bytes) ← readFlag bytes
    return (.bool b, bytes)
  | 1 =>
    let (n, bytes) ← readUint 1 bytes
    return (.byte n.toUInt8.toInt8, bytes)
  | 2 =>
    let (n, bytes) ← readUint 2 bytes
    return (.short n.toUInt16.toInt16, bytes)
  | 3 =>
    let (n, bytes) ← readUint 4 bytes
    return (.int n.toUInt32.toInt32, bytes)
  | 4 =>
    let (n, bytes) ← readUint 8 bytes
    return (.long n.toUInt64.toInt64, bytes)
  | 5 =>
    let (n, bytes) ← readUint 4 bytes
    return (.float (.ofBits n), bytes)
  | 6 =>
    let (n, bytes) ← readUint 8 bytes
    return (.double (.ofBits n), bytes)
  | 7 =>
    let (s, bytes) ← readString bytes
    return (.string s, bytes)
  | 8 =>
    let (name, bytes) ← readString bytes
    return (.enum name, bytes)
  | _ => none

def fallback : Fallback → List UInt8
  | .constant c => variant 0 ++ constant c
  | .param name => variant 1 ++ string name

def readFallback : Reader Fallback := fun bytes => do
  let (index, bytes) ← readVariant bytes
  match index with
  | 0 =>
    let (c, bytes) ← readConstant bytes
    return (.constant c, bytes)
  | 1 =>
    let (name, bytes) ← readString bytes
    return (.param name, bytes)
  | _ => none

def operator : Operator → List UInt8
  | .add => variant 0
  | .sub => variant 1
  | .mul => variant 2
  | .div => variant 3
  | .rem => variant 4

def readOperator : Reader Operator := fun bytes => do
  let (index, bytes) ← readVariant bytes
  match index with
  | 0 => return (.add, bytes)
  | 1 => return (.sub, bytes)
  | 2 => return (.mul, bytes)
  | 3 => return (.div, bytes)
  | 4 => return (.rem, bytes)
  | _ => none

def operand : Operand → List UInt8
  | .int n => variant 0 ++ uint 8 n.toUInt64.toNat
  | .float x => variant 1 ++ uint 8 x.bits.toNat

def readOperand : Reader Operand := fun bytes => do
  let (index, bytes) ← readVariant bytes
  match index with
  | 0 =>
    let (n, bytes) ← readUint 8 bytes
    return (.int n.toUInt64.toInt64, bytes)
  | 1 =>
    let (n, bytes) ← readUint 8 bytes
    return (.float (.ofBits n), bytes)
  | _ => none

def access : Access → List UInt8
  | .field owner name => variant 0 ++ string owner ++ string name
  | .method owner name => variant 1 ++ string owner ++ string name
  | .key name => variant 2 ++ string name

def readAccess : Reader Access := fun bytes => do
  let (index, bytes) ← readVariant bytes
  match index with
  | 0 =>
    let (owner, bytes) ← readString bytes
    let (name, bytes) ← readString bytes
    return (.field owner name, bytes)
  | 1 =>
    let (owner, bytes) ← readString bytes
    let (name, bytes) ← readString bytes
    return (.method owner name, bytes)
  | 2 =>
    let (name, bytes) ← readString bytes
    return (.key name, bytes)
  | _ => none

def argument : Argument → List UInt8
  | .constant c => variant 0 ++ constant c
  | .path steps => variant 1 ++ list access steps
  | .null => variant 2

def readArgument : Reader Argument := fun bytes => do
  let (index, bytes) ← readVariant bytes
  match index with
  | 0 =>
    let (c, bytes) ← readConstant bytes
    return (.constant c, bytes)
  | 1 =>
    let (steps, bytes) ← readList readAccess bytes
    return (.path steps, bytes)
  | 2 => return (.null, bytes)
  | _ => none

def guardKind : GuardKind → List UInt8
  | .optional => variant 0
  | .nullable => variant 1

def readGuardKind : Reader GuardKind := fun bytes => do
  let (index, bytes) ← readVariant bytes
  match index with
  | 0 => return (.optional, bytes)
  | 1 => return (.nullable, bytes)
  | _ => none

def emitCheck : EmitCheck → List UInt8
  | .unchecked => variant 0
  | .skipAbsent => variant 1
  | .default value => variant 2 ++ fallback value

def readEmitCheck : Reader EmitCheck := fun bytes => do
  let (index, bytes) ← readVariant bytes
  match index with
  | 0 => return (.unchecked, bytes)
  | 1 => return (.skipAbsent, bytes)
  | 2 =>
    let (value, bytes) ← readFallback bytes
    return (.default value, bytes)
  | _ => none

def slot (n : Nat) : List UInt8 := uint 4 n

def readSlot : Reader Nat := readUint 4

mutual

def stmt : Stmt → List UInt8
  | .text s => variant 0 ++ string s
  | .load dst src a => variant 1 ++ slot dst ++ slot src ++ access a
  | .math dst src op n t =>
    variant 2 ++ slot dst ++ slot src ++ operator op ++ operand n ++ ty t
  | .cast dst src target => variant 3 ++ slot dst ++ slot src ++ ty target
  | .call dst function args => variant 4 ++ slot dst ++ string function ++ list argument args
  | .ifPresent guard value present otherwise =>
    variant 5 ++ guardKind guard ++ slot value ++ word present.length ++ stmts present ++
      word otherwise.length ++ stmts otherwise
  | .emit value check => variant 6 ++ slot value ++ emitCheck check
  | .emitDefault value => variant 7 ++ fallback value
  | .capture sink parent body =>
    variant 8 ++ slot sink ++ slot parent ++ word body.length ++ stmts body
  | .firstNonEmpty sink parent alternatives otherwise =>
    variant 9 ++ slot sink ++ slot parent ++ word alternatives.length ++ blocks alternatives ++
      word otherwise.length ++ stmts otherwise
  | .missing name => variant 10 ++ string name

def stmts : List Stmt → List UInt8
  | [] => []
  | s :: rest => stmt s ++ stmts rest

def blocks : List (List Stmt) → List UInt8
  | [] => []
  | b :: rest => word b.length ++ stmts b ++ blocks rest

end

def readStmt : (levels : Nat) → Reader Stmt
  | 0, _ => none
  | levels + 1, bytes => do
    let (index, bytes) ← readVariant bytes
    match index with
    | 0 =>
      let (s, bytes) ← readString bytes
      return (.text s, bytes)
    | 1 =>
      let (dst, bytes) ← readSlot bytes
      let (src, bytes) ← readSlot bytes
      let (a, bytes) ← readAccess bytes
      return (.load dst src a, bytes)
    | 2 =>
      let (dst, bytes) ← readSlot bytes
      let (src, bytes) ← readSlot bytes
      let (op, bytes) ← readOperator bytes
      let (n, bytes) ← readOperand bytes
      let (t, bytes) ← readTy levels bytes
      return (.math dst src op n t, bytes)
    | 3 =>
      let (dst, bytes) ← readSlot bytes
      let (src, bytes) ← readSlot bytes
      let (target, bytes) ← readTy levels bytes
      return (.cast dst src target, bytes)
    | 4 =>
      let (dst, bytes) ← readSlot bytes
      let (function, bytes) ← readString bytes
      let (args, bytes) ← readList readArgument bytes
      return (.call dst function args, bytes)
    | 5 =>
      let (guard, bytes) ← readGuardKind bytes
      let (value, bytes) ← readSlot bytes
      let (present, bytes) ← readList (readStmt levels) bytes
      let (otherwise, bytes) ← readList (readStmt levels) bytes
      return (.ifPresent guard value present otherwise, bytes)
    | 6 =>
      let (value, bytes) ← readSlot bytes
      let (check, bytes) ← readEmitCheck bytes
      return (.emit value check, bytes)
    | 7 =>
      let (value, bytes) ← readFallback bytes
      return (.emitDefault value, bytes)
    | 8 =>
      let (sink, bytes) ← readSlot bytes
      let (parent, bytes) ← readSlot bytes
      let (body, bytes) ← readList (readStmt levels) bytes
      return (.capture sink parent body, bytes)
    | 9 =>
      let (sink, bytes) ← readSlot bytes
      let (parent, bytes) ← readSlot bytes
      let (alternatives, bytes) ← readList (readList (readStmt levels)) bytes
      let (otherwise, bytes) ← readList (readStmt levels) bytes
      return (.firstNonEmpty sink parent alternatives otherwise, bytes)
    | 10 =>
      let (name, bytes) ← readString bytes
      return (.missing name, bytes)
    | _ => none

def routine (r : Routine) : List UInt8 :=
  string r.name ++ string r.input ++ string r.sink ++ list string r.temps ++
    word r.body.length ++ stmts r.body

/-- Reads a routine. Each level of nesting takes a byte at least, so as many levels as there are
bytes are enough. -/
def readRoutine : Reader Routine := fun bytes => do
  let levels := bytes.length
  let (name, bytes) ← readString bytes
  let (input, bytes) ← readString bytes
  let (sink, bytes) ← readString bytes
  let (temps, bytes) ← readList readString bytes
  let (body, bytes) ← readList (readStmt levels) bytes
  return (⟨name, input, sink, temps, body⟩, bytes)

end PathTemplate.Packed
