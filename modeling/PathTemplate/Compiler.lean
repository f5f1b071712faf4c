import PathTemplate.Cache.Flight
import PathTemplate.Cache.Store
import PathTemplate.Compiler.Source

/-!
A compiler keeps the programs it made in memory and, if so configured, their routines in a store
that several compilers may share. A template is looked up in memory, then in the store, and is
compiled only when neither has it.
-/

namespace PathTemplate

/-- A program in use. Renderers of one compiler share their program when their numbers agree. -/
structure Renderer (ρ : Type) where
  number : Nat
  program : Program ρ

structure Counters where
  compilations : Nat := 0
  storeHits : Nat := 0
  links : Nat := 0
  deriving DecidableEq, Repr

inductive CompilerError where
  | compile (e : CompileError)
  | unregisteredType (name : String)
  | store (e : Cache.StoreError)
  deriving DecidableEq, Repr

def CompilerError.message : CompilerError → String
  | .compile e => e.message
  | .unregisteredType name => "type `" ++ name ++ "` is not registered in the schema"
  | .store _ => "cache I/O error"

structure Compiler (ρ : Type) where
  schema : Schema ρ
  functions : Functions ρ
  config : Config
  memory : Cache.Memory (Renderer ρ)
  counters : Counters

namespace Compiler

variable {ρ : Type}

/-- A compiler with nothing in memory. It cannot be had when artifacts are to be stored and there
is no place for them. -/
def create (schema : Schema ρ) (functions : Functions ρ) (config : Config)
    (storeAvailable : Bool) : Except Cache.StoreError (Compiler ρ) :=
  if config.disk.isSome && !storeAvailable then .error .unavailable
  else .ok ⟨schema, functions, config, .empty config.capacity config.ttl, {}⟩

def inputName (c : Compiler ρ) (type : Shape ρ) : Except CompilerError String :=
  match c.schema.shapeOf? type.id with
  | some shape => .ok shape.name
  | none => .error (.unregisteredType type.name)

def source (c : Compiler ρ) (type : Shape ρ) (sink template : String) :
    Except CompilerError Source := do
  return ⟨template, ← c.inputName type, sink⟩

def routine (h : HashFunction) (c : Compiler ρ) (s : Source) : Except CompileError Routine :=
  s.routine c.schema c.functions c.config (Key.routineName ((Key.ofConfig c.config s).hash h))

/-- The counters of a compiler and the store, which building a program may change. -/
abbrev Workshop := Counters × Cache.Store

def stored? (h : HashFunction) (c : Compiler ρ) (now : Nat) (s : Source) (w : Workshop) :
    Option (Routine × Workshop) :=
  if c.config.disk.isNone then none
  else
    match w.2.load now ((Key.ofConfig c.config s).artifactHash h c.schema c.functions)
        (h (Packed.string s.template)) with
    | none => none
    | some (r, store) => some (r, { w.1 with storeHits := w.1.storeHits + 1 }, store)

def generate (h : HashFunction) (c : Compiler ρ) (now : Nat) (s : Source) (w : Workshop) :
    Except CompileError (Routine × Workshop) := do
  let r ← c.routine h s
  let store :=
    if c.config.disk.isNone then w.2
    else w.2.save now ((Key.ofConfig c.config s).artifactHash h c.schema c.functions)
      (h (Packed.string s.template)) r
  return (r, { w.1 with compilations := w.1.compilations + 1 }, store)

def link (c : Compiler ρ) (s : Source) (r : Routine) (w : Workshop) :
    Except CompileError (Renderer ρ) × Workshop :=
  match s.link c.schema c.functions r with
  | .ok program => (.ok ⟨w.1.links, program⟩, { w.1 with links := w.1.links + 1 }, w.2)
  | .error e => (.error e, w)

/-- Builds a program that is not in memory. A stored routine that does not link is an error. -/
def build (h : HashFunction) (c : Compiler ρ) (now : Nat) (s : Source) (w : Workshop) :
    Except CompileError (Renderer ρ) × Workshop :=
  match c.stored? h now s w with
  | some (r, w) => c.link s r w
  | none =>
    match c.generate h now s w with
    | .ok (r, w) => c.link s r w
    | .error e => (.error e, w)

def compile (h : HashFunction) (c : Compiler ρ) (store : Cache.Store) (now : Nat) (type : Shape ρ)
    (sink template : String) : Except CompilerError (Renderer ρ) × Compiler ρ × Cache.Store :=
  match c.source type sink template with
  | .error e => (.error e, c, store)
  | .ok s =>
    let (result, memory, counters, store) :=
      c.memory.getOrBuild now ((Key.ofConfig c.config s).hash h) template (c.build h now s)
        (c.counters, store)
    (result.mapError .compile, { c with memory, counters }, store)

/-- The results of `count` requests for one template at the same time. -/
def compileTogether (h : HashFunction) (c : Compiler ρ) (store : Cache.Store) (now : Nat)
    (type : Shape ρ) (sink template : String) (count : Nat) :
    List (Except CompilerError (Renderer ρ)) × Compiler ρ × Cache.Store :=
  match c.source type sink template with
  | .error e => (List.replicate count (.error e), c, store)
  | .ok s =>
    let requests := List.replicate count ((Key.ofConfig c.config s).hash h, template)
    let flight := (Cache.Flight.start c.memory requests (c.counters, store)).settle
      (fun _ => c.build h now s) now
    (flight.results.map (·.mapError .compile),
      { c with memory := flight.memory, counters := flight.world.1 }, flight.world.2)

def sweep (c : Compiler ρ) (store : Cache.Store) (now : Nat) :
    Except CompilerError Nat × Compiler ρ × Cache.Store :=
  let (dropped, memory) := c.memory.sweep now
  let c := { c with memory }
  match c.config.disk with
  | none => (.ok dropped, c, store)
  | some disk =>
    let (removed, store) := store.sweep disk.ttl now
    ((removed.map (dropped + ·)).mapError .store, c, store)

end Compiler

end PathTemplate
