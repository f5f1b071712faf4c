import PathTemplate.Calendar.Pattern
import PathTemplate.Sink.Basic

/-!
Text output. Numbers take their shortest form, payloads are hexadecimal, dates and times follow
patterns. A list is bracketed, with its texts, dates and times in quotes.
-/

namespace PathTemplate

open Calendar

structure TextFormat where
  dateTime : List Pattern.Piece
  date : List Pattern.Piece
  endOfLine : String

inductive PatternError where
  | invalid (subject pattern : String)
  deriving DecidableEq, Repr

def PatternError.message : PatternError → String
  | .invalid subject pattern => "invalid " ++ subject ++ " pattern `" ++ pattern ++ "`"

namespace TextFormat

def isoDate : List Pattern.Piece :=
  [.number .year .zero, .literal ['-'], .number .month .zero, .literal ['-'], .number .day .zero]

def isoDateTime : List Pattern.Piece :=
  isoDate ++ .literal ['T'] :: Pattern.clock ++
    [.wording (.fractionDigits true 3), .literal ['Z']]

def standard : TextFormat := ⟨isoDateTime, isoDate, "\n"⟩

def withDateTime (f : TextFormat) (pattern : String) : Except PatternError TextFormat :=
  match Pattern.ofString? pattern with
  | some pieces => .ok { f with dateTime := pieces }
  | none => .error (.invalid "datetime" pattern)

def withDate (f : TextFormat) (pattern : String) : Except PatternError TextFormat :=
  match Pattern.ofString? pattern with
  | some pieces => .ok { f with date := pieces }
  | none => .error (.invalid "date" pattern)

def withEndOfLine (f : TextFormat) (s : String) : TextFormat := { f with endOfLine := s }

variable {ρ : Type}

def scalar (f : TextFormat) : Value ρ → String
  | .dateTime t => Pattern.format f.dateTime (.ofInstant t)
  | .date d => Pattern.format f.date (.ofDate d)
  | v => v.text?.getD ""

def quoteChar (c : Char) : List Char := if c = '"' || c = '\\' then ['\\', c] else [c]

def quote (s : String) : String := String.ofList ('"' :: s.toList.flatMap quoteChar ++ ['"'])

def item (v : Value ρ) (text : String) : String :=
  match v with
  | .null => "null"
  | .string s | .enum s => quote s
  | .dateTime _ | .date _ => "\"" ++ text ++ "\""
  | _ => text

mutual

def text (f : TextFormat) : Value ρ → String
  | .list items => "[" ++ ",".intercalate (itemTexts f items) ++ "]"
  | v => f.scalar v

def itemTexts (f : TextFormat) : List (Value ρ) → List String
  | [] => []
  | v :: vs => item v (text f v) :: itemTexts f vs

end

end TextFormat

structure TextSink where
  content : String
  /-- Size of the content when the last record ended. -/
  lineStart : Nat
  format : TextFormat

namespace TextSink

def ofFormat (f : TextFormat) : TextSink := ⟨"", 0, f⟩

def append (s : TextSink) (text : String) : TextSink := { s with content := s.content ++ text }

instance : Sink TextSink where
  kind := "text"
  fresh s := ofFormat s.format
  accept s v := s.append (s.format.text v)
  splice s other := s.append other.content
  isEmpty s := s.content.isEmpty
  bytes s := s.content.toUTF8.toList
  reset s := ofFormat s.format
  endRecord force s :=
    if force || s.lineStart < s.content.utf8ByteSize then
      let s := s.append s.format.endOfLine
      { s with lineStart := s.content.utf8ByteSize }
    else s

end TextSink

end PathTemplate
