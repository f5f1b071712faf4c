import PathTemplate.Template.Cursor

/-!
Reading templates. Chains nest through the arguments of calls and the items of joins; each level is
read with a reader for the level below, and the number of levels is limited. Within a level every
round of a loop reads at least one character, so the characters left bound the rounds.
-/

namespace PathTemplate.Template

/-- Reads something at a place and answers with the place after it. -/
abbrev Reader (α : Type) := Cursor → Except ParseError (α × Cursor)

namespace Parser

/-- The further alternatives behind a first one; ends before anything but a bar. -/
def alternativesOnto (chain : Reader Chain) :
    (bound : Nat) → (out : List Chain) → Reader (List Chain)
  | 0, out, c => .ok (out.reverse, c)
  | bound + 1, out, c =>
    let c := c.skipBlanks
    match c.eat? '|' with
    | some after => do
      let (next, c) ← chain after.skipBlanks
      alternativesOnto chain bound (next :: out) c
    | none => .ok (out.reverse, c)

def defaultMark? (c : Cursor) : Option Cursor :=
  (c.eat? '?').bind (·.eat? '?')

def expr (chain : Reader Chain) : Reader Expr := fun c => do
  let (first, after) ← chain c
  let (alternatives, after) ← alternativesOnto chain (after.rest.length + 1) [first] after
  match defaultMark? after with
  | some mark =>
    let (l, after) ← mark.skipBlanks.defaultLiteral
    return (.mk alternatives (some l) (after.spanFrom c.pos), after)
  | none => return (.mk alternatives none (after.spanFrom c.pos), after)

def arg (chain : Reader Chain) : Reader Arg := fun c => do
  if c.atQuote || c.atNumber then
    let (l, after) ← c.literal
    return (.literal l, after)
  else if let some (b, after) := c.bool? then
    return (.literal ⟨.bool b, after.spanFrom c.pos⟩, after)
  else
    let (path, after) ← chain c
    return (.path path, after)

def argsOnto (chain : Reader Chain) : (bound : Nat) → (out : List Arg) → Reader (List Arg)
  | 0, _, c => c.expected "`,` or `)`"
  | bound + 1, out, c => do
    let (a, c) ← arg chain c
    let c := c.skipBlanks
    match c.eat? ',', c.eat? ')' with
    | some after, _ => argsOnto chain bound (a :: out) after.skipBlanks
    | none, some after => return ((a :: out).reverse, after)
    | none, none => c.expected "`,` or `)`"

def args (chain : Reader Chain) : Reader (List Arg) := fun c =>
  let c := c.skipBlanks
  match c.eat? ')' with
  | some after => .ok ([], after)
  | none => argsOnto chain (c.rest.length + 1) [] c

def joinItem (chain : Reader Chain) : Reader JoinItem := fun c => do
  if c.atQuote then
    let (s, after) ← c.quoted
    return (.text s (after.spanFrom c.pos), after)
  else if c.atName || c.peek = some '[' then
    let (e, after) ← expr chain c
    return (.expr e, after)
  else c.expected "join item"

def joinItemsOnto (chain : Reader Chain) :
    (bound : Nat) → (out : List JoinItem) → Reader (List JoinItem)
  | 0, _, c => c.expected "`,` or `\x7d`"
  | bound + 1, out, c => do
    let (item, c) ← joinItem chain c.skipBlanks
    let c := c.skipBlanks
    match c.eat? ',', c.eat? '}' with
    | some after, _ => joinItemsOnto chain bound (item :: out) after
    | none, some after => return ((item :: out).reverse, after)
    | none, none => c.expected "`,` or `\x7d`"

def head (chain : Reader Chain) : Reader Head := fun c => do
  if c.peek = some '[' then
    let (k, after) ← c.key
    return (.key k, after)
  else
    let (id, after) ← c.ident "field, method or function name"
    match after.eat? '(' with
    | some inside =>
      let (args, after) ← args chain inside
      return (.call id args, after)
    | none => return (.name id, after)

def dotStep (chain : Reader Chain) (start : Nat) : Reader Step := fun c => do
  if c.peek = some '{' then
    let (items, after) ← joinItemsOnto chain (c.rest.length + 1) [] c.next
    return (.join items (after.spanFrom start), after)
  else
    let (id, after) ← c.ident "member name after `.`"
    match after.eat? '(' with
    | some inside =>
      let inside := inside.skipBlanks
      match inside.eat? ')' with
      | some after => return (.call id, after)
      | none => inside.expected "`)` (methods take no arguments)"
    | none => return (.member id, after)

def step? (chain : Reader Chain) (c : Cursor) : Option (Except ParseError (Step × Cursor)) :=
  match c.peek with
  | some '.' => some (dotStep chain c.pos c.next)
  | some '[' => some do
    let (k, after) ← c.key
    return (.key k, after)
  | _ => none

/-- The steps of a chain. Nothing may follow a join. -/
def stepsOnto (chain : Reader Chain) : (bound : Nat) → (out : List Step) → Reader (List Step)
  | 0, out, c => .ok (out.reverse, c)
  | bound + 1, out, c =>
    match step? chain c with
    | none => .ok (out.reverse, c)
    | some step => do
      let (s, after) ← step
      if out.head?.any Step.isJoin then Cursor.fail .joinNotLast (after.spanFrom c.pos)
      else stepsOnto chain bound (s :: out) after

def arithmetic (joined : Bool) : Reader (Option Arithmetic) := fun c =>
  match c.peek.bind Operator.ofSymbol? with
  | none => .ok (none, c)
  | some op => do
    let (operand, after) ← c.next.skipBlanks.number
    let span := after.spanFrom c.pos
    if joined then Cursor.fail .joinNotLast span
    else return (some ⟨op, operand, span⟩, after)

def conversion (joined : Bool) : Reader (Option Conversion) := fun c =>
  match c.word? "as" with
  | none => .ok (none, c)
  | some after => do
    let (target, after) ← after.skipBlanks.ident "cast target type"
    match Cursor.castTarget? target.name with
    | none => Cursor.fail (.unknownCastType target.name) target.span
    | some ty =>
      let span := after.spanFrom c.pos
      if joined then Cursor.fail .joinNotLast span
      else return (some ⟨ty, span⟩, after)

/-- One level of a chain, given a reader for the level below. -/
def chainLevel (below : Reader Chain) : Reader Chain := fun c => do
  let (head, after) ← head below c
  let (steps, after) ← stepsOnto below (after.rest.length + 1) [] after
  let joined := steps.getLast?.any Step.isJoin
  let (arithmetic, after) ← arithmetic joined after.skipBlanks
  let (conversion, after) ← conversion joined after.skipBlanks
  return (.mk head steps arithmetic conversion (after.spanFrom c.pos), after)

/-- A chain that nests at most `levels` deep, where the whole template may nest `limit` deep. -/
def chain (limit : Nat) : (levels : Nat) → Reader Chain
  | 0, c => Cursor.fail (.tooDeep limit) c.here
  | levels + 1, c => chainLevel (chain limit levels) c

def expression (chain : Reader Chain) (start : Nat) : Reader Expr := fun c => do
  let c := c.skipBlanks
  if c.atEnd then Cursor.fail .unterminatedExpression (c.spanFrom start)
  else
    match c.eat? '}' with
    | some after => Cursor.fail .emptyExpression (after.spanFrom start)
    | none =>
      let (e, after) ← expr chain c
      let after := after.skipBlanks
      match after.eat? '}' with
      | some close => return (e, close)
      | none =>
        if after.atEnd then Cursor.fail .unterminatedExpression (after.spanFrom start)
        else after.expected "`\x7d`"

def textSegment (start stop : Nat) (text : List Char) : List Segment :=
  if text.isEmpty then [] else [.text (String.ofList text.reverse) (.ofRange start stop)]

/-- The segments from a place on. The text since `start` stands in `text`, last character first,
the finished segments in `out`, last first. -/
def segmentsOnto (chain : Reader Chain) : (bound : Nat) → (start : Nat) → (text : List Char) →
    (out : List Segment) → Cursor → Except ParseError (List Segment)
  | 0, start, text, out, c => .ok (textSegment start c.pos text ++ out).reverse
  | bound + 1, start, text, out, c =>
    match c.rest with
    | [] => .ok (textSegment start c.pos text ++ out).reverse
    | '$' :: '$' :: _ => segmentsOnto chain bound start ('$' :: text) out (c.advance 2)
    | '$' :: '{' :: _ => do
      let (e, after) ← expression chain c.pos (c.advance 2)
      segmentsOnto chain bound after.pos [] (.expr e :: textSegment start c.pos text ++ out) after
    | x :: _ => segmentsOnto chain bound start (x :: text) out c.next

end Parser

def maxNesting : Nat := 128

def parseWithin (limit : Nat) (s : String) : Except ParseError Template := do
  let chain := Parser.chain limit limit
  return ⟨← Parser.segmentsOnto chain (s.length + 1) 0 [] [] (.ofString s)⟩

def parse (s : String) : Except ParseError Template := parseWithin maxNesting s

end PathTemplate.Template
