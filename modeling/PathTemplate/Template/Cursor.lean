import PathTemplate.Numeric.Digits
import PathTemplate.Template.Basic
import PathTemplate.Text.Blank
import PathTemplate.Text.Letter

namespace PathTemplate.Template

inductive ParseErrorKind where
  | unterminatedExpression
  | unterminatedString
  | unterminatedKey
  | emptyExpression
  | expected (what found : String)
  | invalidNumber (text : String)
  | unknownCastType (name : String)
  | joinNotLast
  | tooDeep (max : Nat)
  deriving DecidableEq, Repr

def ParseErrorKind.message : ParseErrorKind → String
  | .unterminatedExpression => "unterminated `$\x7b` expression"
  | .unterminatedString => "unterminated string literal"
  | .unterminatedKey => "unterminated `[` key"
  | .emptyExpression => "empty expression"
  | .expected what found => "expected " ++ what ++ ", found " ++ found
  | .invalidNumber text => "invalid number `" ++ text ++ "`"
  | .unknownCastType name =>
    "unknown cast target `" ++ name ++
      "` (expected byte, short, int, long, float, double or string)"
  | .joinNotLast => "a `.\x7b...\x7d` join must be the last step"
  | .tooDeep max => "expression nested more than " ++ toString max ++ " levels deep"

structure ParseError where
  kind : ParseErrorKind
  span : Span
  deriving DecidableEq, Repr

def ParseError.message (e : ParseError) : String := e.kind.message ++ " at " ++ e.span.text

structure Cursor where
  pos : Nat
  rest : List Char

def Cursor.ofString (s : String) : Cursor := ⟨0, s.toList⟩

namespace Cursor

def atEnd (c : Cursor) : Bool := c.rest.isEmpty

def peek (c : Cursor) : Option Char := c.rest.head?

def peekNth (c : Cursor) (n : Nat) : Option Char := c.rest[n]?

def next (c : Cursor) : Cursor :=
  match c.rest with
  | [] => c
  | x :: rest => ⟨c.pos + x.utf8Size, rest⟩

def eat? (c : Cursor) (x : Char) : Option Cursor :=
  if c.peek = some x then some c.next else none

def takeWhile (c : Cursor) (p : Char → Bool) : List Char × Cursor :=
  let run := c.rest.takeWhile p
  (run, ⟨c.pos + Text.byteLength run, c.rest.dropWhile p⟩)

def skipBlanks (c : Cursor) : Cursor := (c.takeWhile Text.isBlank).2

def advance (c : Cursor) : Nat → Cursor
  | 0 => c
  | n + 1 => c.next.advance n

def spanFrom (c : Cursor) (start : Nat) : Span := .ofRange start c.pos

def here (c : Cursor) : Span := .ofRange c.pos c.next.pos

def found (c : Cursor) : String :=
  match c.peek with
  | some x => "`" ++ String.ofList [x] ++ "`"
  | none => "end of input"

def fail {α : Type} (kind : ParseErrorKind) (span : Span) : Except ParseError α :=
  .error ⟨kind, span⟩

def expected {α : Type} (c : Cursor) (what : String) : Except ParseError α :=
  fail (.expected what c.found) c.here

def isNameStart (x : Char) : Bool := Text.isLetter x || x = '_'

def isNameChar (x : Char) : Bool := Text.isWordChar x || x = '_'

def atName (c : Cursor) : Bool := c.peek.any isNameStart

def ident? (c : Cursor) : Option (Ident × Cursor) :=
  if c.atName then
    let (name, after) := c.takeWhile isNameChar
    some (⟨String.ofList name, after.spanFrom c.pos⟩, after)
  else none

def ident (c : Cursor) (what : String) : Except ParseError (Ident × Cursor) :=
  match c.ident? with
  | some r => .ok r
  | none => c.expected what

def word? (c : Cursor) (w : String) : Option Cursor :=
  if w.toList.isPrefixOf c.rest then
    let after := c.advance w.length
    if after.peek.any isNameChar then none else some after
  else none

/-- `true` or `false` as a word of its own, not as the start of a path. -/
def bool? (c : Cursor) : Option (Bool × Cursor) :=
  let alone (b : Bool) (after : Cursor) : Option (Bool × Cursor) :=
    match after.peek with
    | some '.' | some '(' | some '[' => none
    | _ => some (b, after)
  match c.word? "true" with
  | some after => alone true after
  | none => (c.word? "false").bind (alone false)

def atQuote (c : Cursor) : Bool := c.peek == some '"' || c.peek == some '\''

def atNumber (c : Cursor) : Bool :=
  match c.peek with
  | some x =>
    x.isDigit || ((x = '-' || x = '+') && (c.peekNth 1).any Char.isDigit)
  | none => false

def unescape (x : Char) : List Char :=
  match x with
  | 'n' => ['\n']
  | 't' => ['\t']
  | 'r' => ['\r']
  | '\\' => ['\\']
  | '"' => ['"']
  | '\'' => ['\'']
  | x => ['\\', x]

/-- The characters up to the closing quote and the place after it; the place where the text ran out
when there is none. The characters read so far stand in `out`, last first. -/
def quotedOnto (quote : Char) (pos : Nat) (out : List Char) :
    List Char → Except Nat (List Char × Cursor)
  | [] => .error pos
  | x :: rest =>
    let pos := pos + x.utf8Size
    if x = quote then .ok (out.reverse, ⟨pos, rest⟩)
    else if x = '\\' then
      match rest with
      | [] => .error pos
      | y :: rest => quotedOnto quote (pos + y.utf8Size) ((unescape y).reverse ++ out) rest
    else quotedOnto quote pos (x :: out) rest

def quoted (c : Cursor) : Except ParseError (String × Cursor) :=
  let quote := c.peek.getD '"'
  match quotedOnto quote c.next.pos [] c.next.rest with
  | .ok (cs, after) => .ok (String.ofList cs, after)
  | .error pos => fail .unterminatedString (.ofRange c.pos pos)

def sign (c : Cursor) : Bool × Cursor :=
  match c.peek with
  | some '-' => (true, c.next)
  | some '+' => (false, c.next)
  | _ => (false, c)

/-- The value of the digits of a power of ten. Once it has reached 65536, further digits are passed
over. -/
def powerOfDigits (ds : List Char) : Nat :=
  ds.foldl (fun n d => if n < 65536 then n * 10 + Numeric.digitValue d else n) 0

def fraction? (c : Cursor) : Option (List Char × Cursor) :=
  if c.peek = some '.' && (c.peekNth 1).any Char.isDigit then
    some (c.next.takeWhile Char.isDigit)
  else none

def exponent? (c : Cursor) : Option (Bool × List Char × Cursor) :=
  if c.peek = some 'e' || c.peek = some 'E' then
    let (negative, c) := c.next.sign
    let (digits, c) := c.takeWhile Char.isDigit
    some (negative, digits, c)
  else none

def signed (negative : Bool) (n : Nat) : Int := if negative then -(n : Int) else n

def int64? (negative : Bool) (n : Nat) : Option Int64 :=
  let i := signed negative n
  if -9223372036854775808 ≤ i ∧ i < 9223372036854775808 then some (.ofInt i) else none

/-- A number. One with a point or a power of ten is floating, any other whole. -/
def number (c : Cursor) : Except ParseError (Operand × Cursor) :=
  if !c.atNumber then c.expected "number"
  else
    let (negative, c₁) := c.sign
    let (whole, c₂) := c₁.takeWhile Char.isDigit
    let (places, c₃) := (c₂.fraction?).getD ([], c₂)
    let floating (power : Int) : Operand :=
      .float (.ofDecimal negative (Numeric.natOfDigits (whole ++ places)) (power - places.length))
    let (value, after) : Option Operand × Cursor :=
      match c₃.exponent? with
      | some (negative, digits, after) =>
        (if digits.isEmpty then none else some (floating (signed negative (powerOfDigits digits))),
          after)
      | none =>
        (if c₂.fraction?.isSome then some (floating 0)
          else (int64? negative (Numeric.natOfDigits whole)).map .int,
          c₃)
    match value with
    | some n => .ok (n, after)
    | none =>
      let text := String.ofList (c.rest.take (c.rest.length - after.rest.length))
      fail (.invalidNumber text) (after.spanFrom c.pos)

def literal (c : Cursor) : Except ParseError (Literal × Cursor) := do
  if c.atQuote then
    let (s, after) ← c.quoted
    return (⟨.string s, after.spanFrom c.pos⟩, after)
  else
    let (n, after) ← c.number
    return (⟨.number n, after.spanFrom c.pos⟩, after)

def defaultLiteral (c : Cursor) : Except ParseError (Literal × Cursor) := do
  if let some name := c.eat? '$' then
    let (id, after) ← name.ident "parameter name after `$`"
    return (⟨.param id.name, after.spanFrom c.pos⟩, after)
  else if let some (b, after) := c.bool? then
    return (⟨.bool b, after.spanFrom c.pos⟩, after)
  else if c.atQuote || c.atNumber then c.literal
  else c.expected "default value"

def key (c : Cursor) : Except ParseError (Ident × Cursor) := do
  let inner := c.next.skipBlanks
  let (name, after) ←
    if inner.atQuote then do
      let (s, after) ← inner.quoted
      pure (s, after.skipBlanks)
    else
      let (bare, after) := inner.takeWhile (· ≠ ']')
      pure (Text.trim (String.ofList bare), after)
  match after.eat? ']' with
  | some close =>
    if name.isEmpty then fail (.expected "map key" "`]`") (close.spanFrom c.pos)
    else return (⟨name, close.spanFrom c.pos⟩, close)
  | none =>
    if after.atEnd then fail .unterminatedKey (after.spanFrom c.pos)
    else after.expected "`]`"

def castTarget? (name : String) : Option Ty :=
  match name with
  | "byte" => some .byte
  | "short" => some .short
  | "int" => some .int
  | "long" => some .long
  | "float" => some .float
  | "double" => some .double
  | "string" => some .string
  | _ => none

end Cursor

end PathTemplate.Template
