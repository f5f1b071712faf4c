import PathTemplate.Span

namespace PathTemplate

inductive Stage where
  | parse
  | resolve
  | type
  | generate
  | link
  deriving DecidableEq, Repr

def Stage.name : Stage → String
  | .parse => "parse"
  | .resolve => "resolve"
  | .type => "type"
  | .generate => "generate"
  | .link => "link"

structure Diagnostic where
  stage : Stage
  message : String
  span : Option Span
  deriving DecidableEq, Repr

namespace Diagnostic

def text (d : Diagnostic) : String :=
  match d.span with
  | some s => d.stage.name ++ " error at " ++ s.text ++ ": " ++ d.message
  | none => d.stage.name ++ " error: " ++ d.message

/-- The line of a template that holds an offset. -/
structure Line where
  number : Nat
  before : List Char
  after : List Char

def lineAt (source : List Char) (offset : Nat) : Line :=
  let (front, back) := Text.splitBytes offset source
  { number := front.count '\n' + 1
    before := (front.reverse.takeWhile (· ≠ '\n')).reverse
    after := back.takeWhile (· ≠ '\n') }

/-- Characters of the span that lie on its first line, at least one. -/
def caretWidth (line : Line) (s : Span) : Nat :=
  max 1 (Text.splitBytes (s.stop - s.start) line.after).1.length

def spaces (n : Nat) : String := String.ofList (List.replicate n ' ')

def excerpt (source : String) (s : Span) : String :=
  let line := lineAt source.toList s.start
  let gutter := toString line.number
  let pad := spaces gutter.length
  "\n" ++ pad ++ " |\n" ++ gutter ++ " | " ++ String.ofList (line.before ++ line.after) ++ "\n" ++
    pad ++ " | " ++ spaces line.before.length ++
    String.ofList (List.replicate (caretWidth line s) '^')

/-- The diagnostic with the place it is about, unless that is the empty span at the start. -/
def render (source : String) (d : Diagnostic) : String :=
  let head := "error[" ++ d.stage.name ++ "]: " ++ d.message
  match d.span with
  | some s => if s = .nowhere then head else head ++ excerpt source s
  | none => head

end Diagnostic

structure CompileError where
  template : String
  diagnostics : List Diagnostic
  deriving DecidableEq, Repr

namespace CompileError

def summary : List Diagnostic → String
  | [] => "unknown error"
  | [only] => only.text
  | first :: rest => first.text ++ " (and " ++ toString rest.length ++ " more)"

def message (e : CompileError) : String :=
  "failed to compile `" ++ e.template ++ "`: " ++ summary e.diagnostics

def stage? (e : CompileError) : Option Stage := e.diagnostics.head?.map (·.stage)

def render (e : CompileError) : String :=
  "\n\n".intercalate (e.diagnostics.map (·.render e.template))

end CompileError

end PathTemplate
