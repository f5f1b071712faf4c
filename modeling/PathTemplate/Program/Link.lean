import PathTemplate.Program.Basic
import PathTemplate.Routine.Listing

namespace PathTemplate

inductive LinkError where
  | unknownType (name : String)
  | tempOutOfRange (temp : Nat)
  | noMember (owner name : String)
  | noFunction (name : String) (arity : Nat)
  deriving DecidableEq, Repr

def LinkError.message : LinkError → String
  | .unknownType name => "unknown record type `" ++ name ++ "`"
  | .tempOutOfRange temp => "temporary " ++ toString temp ++ " out of range"
  | .noMember owner name => "`" ++ owner ++ "` has no member `" ++ name ++ "`"
  | .noFunction name arity =>
    "no function `" ++ name ++ "` taking " ++ toString arity ++ " argument(s)"

namespace Link

variable {ρ : Type}

/-- What names and numbers are checked against. -/
structure Scope (ρ : Type) where
  schema : Schema ρ
  functions : Functions ρ
  temps : Nat

def slot (s : Scope ρ) (t : Nat) : List LinkError :=
  if t < s.temps then [] else [.tempOutOfRange t]

def bind (s : Scope ρ) : Access → Except LinkError (Bound ρ)
  | .key name => .ok (.key name)
  | .field owner name =>
    match (s.schema.shape? owner).bind (·.field? name) with
    | some m => .ok (.member m.read)
    | none => .error (.noMember owner name)
  | .method owner name =>
    match (s.schema.shape? owner).bind (·.method? name) with
    | some m => .ok (.member m.read)
    | none => .error (.noMember owner name)

/-- Binds all steps that can be bound and reports the others. -/
def bindAll (s : Scope ρ) : List Access → List (Bound ρ) × List LinkError
  | [] => ([], [])
  | a :: rest =>
    let (bound, errors) := bindAll s rest
    match bind s a with
    | .ok b => (b :: bound, errors)
    | .error e => (bound, e :: errors)

def argument (s : Scope ρ) : Argument → BoundArgument ρ × List LinkError
  | .constant c => (.constant c, [])
  | .path steps =>
    let (bound, errors) := bindAll s steps
    (.path bound, errors)
  | .null => (.null, [])

def arguments (s : Scope ρ) (args : List Argument) : List (BoundArgument ρ) × List LinkError :=
  let bound := args.map (argument s)
  (bound.map (·.1), bound.flatMap (·.2))

mutual

/-- The operation of a statement, if it has one, and what cannot be bound in it. -/
def stmt (s : Scope ρ) : Stmt → Option (Op ρ) × List LinkError
  | .text text => (some (.text text), [])
  | .load dst src access =>
    let slots := slot s dst ++ slot s src
    match bind s access with
    | .ok step => (some (.load dst src step), slots)
    | .error e => (none, slots ++ [e])
  | .math dst src op operand ty => (some (.math dst src op operand ty), slot s dst ++ slot s src)
  | .cast dst src target => (some (.cast dst src target), slot s dst ++ slot s src)
  | .call dst name args =>
    let (bound, errors) := arguments s args
    let errors := slot s dst ++ errors
    match s.functions.lookup? name args.length with
    | some f => (some (.call dst f bound), errors)
    | none => (none, errors ++ [.noFunction name args.length])
  | .ifPresent _ value present otherwise =>
    let (a, ea) := block s present
    let (b, eb) := block s otherwise
    (some (.ifPresent value a b), slot s value ++ ea ++ eb)
  | .emit value check => (some (.emit value check), slot s value)
  | .emitDefault value => (some (.emitDefault value), [])
  | .capture _ _ body =>
    let (ops, errors) := block s body
    (some (.capture ops), errors)
  | .firstNonEmpty _ _ alternatives otherwise =>
    let (a, ea) := blocks s alternatives
    let (b, eb) := block s otherwise
    (some (.firstNonEmpty a b), ea ++ eb)
  | .missing _ => (none, [])

def block (s : Scope ρ) : List Stmt → List (Op ρ) × List LinkError
  | [] => ([], [])
  | st :: rest =>
    let (op, e) := stmt s st
    let (ops, es) := block s rest
    (op.toList ++ ops, e ++ es)

def blocks (s : Scope ρ) : List (List Stmt) → List (List (Op ρ)) × List LinkError
  | [] => ([], [])
  | b :: rest =>
    let (ops, e) := block s b
    let (more, es) := blocks s rest
    (ops :: more, e ++ es)

end

end Link

def Program.link {ρ : Type} (schema : Schema ρ) (functions : Functions ρ) (r : Routine) :
    Except (List LinkError) (Program ρ) :=
  let input := if (schema.shape? r.input).isSome then [] else [LinkError.unknownType r.input]
  let (body, errors) := Link.block ⟨schema, functions, r.temps.length⟩ r.body
  let errors := input ++ errors
  if errors.isEmpty then
    .ok ⟨r.name, r.input, r.sink, max r.temps.length 1, body, r.listing⟩
  else .error errors

end PathTemplate
