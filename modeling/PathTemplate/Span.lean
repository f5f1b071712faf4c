import PathTemplate.Text.Slice

namespace PathTemplate

structure Span where
  start : Nat
  stop : Nat
  deriving DecidableEq, Repr, Inhabited

namespace Span

/-- The place of what was not written in the template. -/
def nowhere : Span := ⟨0, 0⟩

/-- The largest offset a span records; later ones are brought down to it. -/
def limit : Nat := 4294967295

def ofRange (start stop : Nat) : Span := ⟨min start limit, min stop limit⟩

def length (s : Span) : Nat := s.stop - s.start

def isEmpty (s : Span) : Bool := s.start == s.stop

def point (offset : Nat) : Span := ⟨offset, offset⟩

def merge (a b : Span) : Span := ⟨min a.start b.start, max a.stop b.stop⟩

/-- The covered text, empty when the span does not fit the text. -/
def slice (s : Span) (text : String) : String :=
  match Text.sliceBytes s.start s.stop text.toList with
  | some cs => String.ofList cs
  | none => ""

def text (s : Span) : String := toString s.start ++ ".." ++ toString s.stop

end Span

end PathTemplate
