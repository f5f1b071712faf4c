import PathTemplate.Function
import PathTemplate.Text.Case

namespace PathTemplate.Function

variable {ρ : Type}

def first (args : List (Value ρ)) : Value ρ := args.headD .null

def mapText (f : String → String) (v : Value ρ) : Value ρ :=
  match v.text? with
  | some s => .string (f s)
  | none => .null

def sizeOf? : Value ρ → Option Nat
  | .null => none
  | .string s | .enum s => some s.length
  | .list items => some items.length
  | .bytes b => some b.length
  | .map size _ => some size
  | v => some (v.text?.getD "").length

def length (v : Value ρ) : Value ρ :=
  match sizeOf? v with
  | some n => .int (.ofNat (min n 2147483647))
  | none => .null

/-- Texts one after the other; an argument without a text counts as empty. -/
def concat (args : List (Value ρ)) : Value ρ :=
  if args.all Value.isNull then .null
  else .string (String.join (args.map fun v => v.text?.getD ""))

def coalesce (args : List (Value ρ)) : Value ρ :=
  (args.find? fun v => !v.isNull).getD .null

def nullableText : FlaggedTy := (FlaggedTy.plain .string).asNullable

def standard : List (Function ρ) := [
  ⟨"upper", 1, nullableText, fun args => mapText Text.upper (first args)⟩,
  ⟨"lower", 1, nullableText, fun args => mapText Text.lower (first args)⟩,
  ⟨"trim", 1, nullableText, fun args => mapText Text.trim (first args)⟩,
  ⟨"len", 1, (FlaggedTy.plain .int).asNullable, fun args => length (first args)⟩,
  ⟨"concat", 2, nullableText, concat⟩,
  ⟨"coalesce", 2, .unknown, coalesce⟩]

end PathTemplate.Function
