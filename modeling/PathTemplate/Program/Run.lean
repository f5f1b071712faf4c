import PathTemplate.Program.Arithmetic
import PathTemplate.Program.Basic
import PathTemplate.Sink.Basic

/-!
Running a program on an input. Registers start out null, except for the input itself in register 0;
what is written goes into a sink. Nothing can fail.
-/

namespace PathTemplate

/-- Values for the parameters that defaults name. -/
structure Params (ρ : Type) where
  entries : List (String × Value ρ)

namespace Params

variable {ρ : Type}

def empty : Params ρ := ⟨[]⟩

def get? (p : Params ρ) (name : String) : Option (Value ρ) := p.entries.lookup name

def insert (p : Params ρ) (name : String) (v : Value ρ) : Params ρ :=
  ⟨(name, v) :: p.entries.filter (·.1 != name)⟩

def size (p : Params ρ) : Nat := p.entries.length

def listing (p : Params ρ) : String :=
  let names := (p.entries.map (·.1)).mergeSort (· ≤ ·)
  "Params \x7b names: [" ++ ", ".intercalate (names.map Text.quoted) ++ "] \x7d"

end Params

namespace Run

variable {ρ σ : Type}

abbrev Registers (ρ : Type) := List (Value ρ)

structure Env (ρ : Type) where
  input : ρ
  params : Params ρ

def stepInto (v : Value ρ) (step : Bound ρ) : Value ρ :=
  match step, v with
  | .member read, .record r => read r
  | .key name, .map _ lookup => lookup name
  | _, _ => .null

/-- An argument; a path stops at the first null. -/
def argument (env : Env ρ) : BoundArgument ρ → Value ρ
  | .constant c => c.value
  | .path steps => steps.foldl stepInto (.record env.input)
  | .null => .null

/-- Writes what stands in for an absent value. An unknown parameter writes nothing. -/
def fallback [Sink σ] (env : Env ρ) (f : Fallback) (s : σ) : σ :=
  match f with
  | .constant c => Sink.accept s (c.value : Value ρ)
  | .param name =>
    match env.params.get? name with
    | some v => Sink.accept s v
    | none => s

def emit [Sink σ] (env : Env ρ) (v : Value ρ) (check : EmitCheck) (s : σ) : σ :=
  match v, check with
  | .null, .default f => fallback env f s
  | v, _ => Sink.accept s v

def read (regs : Registers ρ) (i : Nat) : Value ρ := regs.getD i .null

mutual

def op [Sink σ] (env : Env ρ) : Op ρ → Registers ρ → σ → Registers ρ × σ
  | .text text, regs, s => (regs, Sink.accept s (Value.string text : Value ρ))
  | .load dst src step, regs, s => (regs.set dst (stepInto (read regs src) step), s)
  | .math dst src o operand ty, regs, s =>
    (regs.set dst ((read regs src).math o operand ty), s)
  | .cast dst src target, regs, s => (regs.set dst ((read regs src).cast target), s)
  | .call dst f args, regs, s => (regs.set dst (f.body (args.map (argument env))), s)
  | .ifPresent value present otherwise, regs, s =>
    if (read regs value).isNull then block env otherwise regs s else block env present regs s
  | .emit value check, regs, s => (regs, emit env (read regs value) check s)
  | .emitDefault value, regs, s => (regs, fallback env value s)
  | .capture body, regs, s =>
    let (regs, inner) := block env body regs (Sink.fresh s)
    (regs, Sink.splice s inner)
  | .firstNonEmpty alternatives otherwise, regs, s =>
    match first env alternatives regs (Sink.fresh s) with
    | (regs, some inner) => (regs, Sink.splice s inner)
    | (regs, none) => block env otherwise regs s

def block [Sink σ] (env : Env ρ) : List (Op ρ) → Registers ρ → σ → Registers ρ × σ
  | [], regs, s => (regs, s)
  | o :: rest, regs, s =>
    let (regs, s) := op env o regs s
    block env rest regs s

/-- The first alternative that writes something, tried in turn in the sink `inner`. -/
def first [Sink σ] (env : Env ρ) :
    List (List (Op ρ)) → Registers ρ → σ → Registers ρ × Option σ
  | [], regs, _ => (regs, none)
  | body :: rest, regs, inner =>
    let (regs, inner) := block env body regs (Sink.reset inner)
    if Sink.isEmpty inner then first env rest regs inner else (regs, some inner)

end

def start (count : Nat) (input : ρ) : Registers ρ :=
  (List.replicate count Value.null).set 0 (.record input)

end Run

namespace Program

variable {ρ σ : Type} [Sink σ]

def run (p : Program ρ) (input : ρ) (params : Params ρ) (s : σ) : σ :=
  (Run.block ⟨input, params⟩ p.body (Run.start p.registers input) s).2

/-- Writes the renderings of inputs into one sink, each ended as a record. Gives what the sink holds
before and after the end of every record. -/
def runRecords (p : Program ρ) (force : Bool) (params : Params ρ) : List ρ → σ → List (σ × σ)
  | [], _ => []
  | input :: rest, s =>
    let written := p.run input params s
    let ended := Sink.endRecord force written
    (written, ended) :: p.runRecords force params rest ended

end Program

end PathTemplate
