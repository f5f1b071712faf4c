import PathTemplate.Config
import PathTemplate.Diagnostic
import PathTemplate.Digest
import PathTemplate.Program.Link
import PathTemplate.Routine.OfTree
import PathTemplate.Template.Parser
import PathTemplate.Tree.Compact
import PathTemplate.Tree.OfTemplate

namespace PathTemplate

structure Source where
  template : String
  input : String
  sink : String
  deriving DecidableEq, Repr

namespace Diagnostic

def ofParse (e : Template.ParseError) : Diagnostic := ⟨.parse, e.kind.message, some e.span⟩

def ofBuild : Tree.BuildError → Diagnostic
  | .resolve e => ⟨.resolve, e.message, some e.span⟩
  | .type e => ⟨.type, e.message, some e.span⟩

def ofDepth (e : Routine.DepthError) : Diagnostic := ⟨.generate, e.message, some e.span⟩

def ofLink (e : LinkError) : Diagnostic := ⟨.link, e.message, none⟩

end Diagnostic

namespace Source

variable {ρ : Type}

/-- The render tree, with common paths merged if the settings ask for it. -/
def tree (schema : Schema ρ) (functions : Functions ρ) (config : Config) (s : Source) :
    Except Diagnostic Tree.Node := do
  let template ← (Template.parse s.template).mapError .ofParse
  let tree ← (Tree.ofTemplate ⟨schema, functions, config.policy, s.input⟩ s.sink template).mapError
    .ofBuild
  return if config.optimize then (Tree.compact tree).1 else tree

def routine (schema : Schema ρ) (functions : Functions ρ) (config : Config) (name : String)
    (s : Source) : Except CompileError Routine :=
  let result := do
    let tree ← s.tree schema functions config
    (Routine.ofTree config.maxDepth name tree).mapError .ofDepth
  result.mapError fun d => ⟨s.template, [d]⟩

def link (schema : Schema ρ) (functions : Functions ρ) (s : Source) (r : Routine) :
    Except CompileError (Program ρ) :=
  (Program.link schema functions r).mapError fun es => ⟨s.template, es.map .ofLink⟩

end Source

/-- All that decides which routine comes out of a schema and functions. -/
structure Key where
  source : Source
  policy : Policy
  optimize : Bool
  maxDepth : Nat
  deriving DecidableEq, Repr

namespace Key

def ofConfig (config : Config) (source : Source) : Key :=
  ⟨source, config.policy, config.optimize, config.maxDepth⟩

def packed (k : Key) : List UInt8 :=
  Packed.string k.source.template ++ Packed.string k.source.input ++
    Packed.string k.source.sink ++ Packed.flag (k.policy == .lenient) ++ Packed.flag k.optimize ++
    Packed.word k.maxDepth

def hash (h : HashFunction) (k : Key) : ContentHash := h k.packed

def routineName (hash : ContentHash) : String := "render_" ++ hash.text

/-- The key of an artifact, which may outlive the schema and the functions it was made with. -/
def artifactHash {ρ : Type} (h : HashFunction) (schema : Schema ρ) (functions : Functions ρ)
    (k : Key) : ContentHash :=
  h (Packed.word (k.hash h).bits.toNat ++ Packed.word (schema.fingerprint h).bits.toNat ++
    Packed.word (functions.fingerprint h).bits.toNat)

end Key

end PathTemplate
