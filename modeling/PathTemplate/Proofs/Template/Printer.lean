import PathTemplate.Proofs.Template.Numerals

namespace PathTemplate

def Ident.unplaced (id : Ident) : Ident := { id with span := .nowhere }

def Literal.unplaced (l : Literal) : Literal := { l with span := .nowhere }

def Arithmetic.unplaced (a : Arithmetic) : Arithmetic := { a with span := .nowhere }

def Conversion.unplaced (c : Conversion) : Conversion := { c with span := .nowhere }

mutual

def Expr.unplaced : Expr → Expr
  | .mk alternatives default _ =>
    .mk (Chain.unplacedAll alternatives) (default.map Literal.unplaced) .nowhere

def Chain.unplaced : Chain → Chain
  | .mk head steps arithmetic conversion _ =>
    .mk head.unplaced (Step.unplacedAll steps) (arithmetic.map Arithmetic.unplaced)
      (conversion.map Conversion.unplaced) .nowhere

def Chain.unplacedAll : List Chain → List Chain
  | [] => []
  | c :: rest => c.unplaced :: Chain.unplacedAll rest

def Head.unplaced : Head → Head
  | .name id => .name id.unplaced
  | .call name args => .call name.unplaced (Arg.unplacedAll args)
  | .key id => .key id.unplaced

def Step.unplaced : Step → Step
  | .member id => .member id.unplaced
  | .call id => .call id.unplaced
  | .key id => .key id.unplaced
  | .join items _ => .join (JoinItem.unplacedAll items) .nowhere

def Step.unplacedAll : List Step → List Step
  | [] => []
  | s :: rest => s.unplaced :: Step.unplacedAll rest

def JoinItem.unplaced : JoinItem → JoinItem
  | .text s _ => .text s .nowhere
  | .expr e => .expr e.unplaced

def JoinItem.unplacedAll : List JoinItem → List JoinItem
  | [] => []
  | i :: rest => i.unplaced :: JoinItem.unplacedAll rest

def Arg.unplaced : Arg → Arg
  | .literal l => .literal l.unplaced
  | .path c => .path c.unplaced

def Arg.unplacedAll : List Arg → List Arg
  | [] => []
  | a :: rest => a.unplaced :: Arg.unplacedAll rest

end

theorem Chain.unplacedAll_eq (cs : List Chain) : Chain.unplacedAll cs = cs.map Chain.unplaced := by
  induction cs with
  | nil => rfl
  | cons c cs ih => rw [Chain.unplacedAll, ih, List.map_cons]

theorem Step.unplacedAll_eq (ss : List Step) : Step.unplacedAll ss = ss.map Step.unplaced := by
  induction ss with
  | nil => rfl
  | cons s ss ih => rw [Step.unplacedAll, ih, List.map_cons]

theorem JoinItem.unplacedAll_eq (is : List JoinItem) :
    JoinItem.unplacedAll is = is.map JoinItem.unplaced := by
  induction is with
  | nil => rfl
  | cons i is ih => rw [JoinItem.unplacedAll, ih, List.map_cons]

theorem Arg.unplacedAll_eq (as : List Arg) : Arg.unplacedAll as = as.map Arg.unplaced := by
  induction as with
  | nil => rfl
  | cons a as ih => rw [Arg.unplacedAll, ih, List.map_cons]

def Segment.unplaced : Segment → Segment
  | .text s _ => .text s .nowhere
  | .expr e => .expr e.unplaced

/-- The template without the places of its parts. -/
def Template.unplaced (t : Template) : Template := ⟨t.segments.map Segment.unplaced⟩

open Template.Cursor

namespace Template

def literalText (form : FloatForm) : LiteralKind → List Char
  | .string s => quotedText s
  | .number n => operandText form n
  | .bool b => boolText b
  | .param name => '$' :: name.toList

def defaultText (form : FloatForm) : Option Literal → List Char
  | some l => " ?? ".toList ++ literalText form l.kind
  | none => []

def arithmeticText (form : FloatForm) : Option Arithmetic → List Char
  | some a => ' ' :: a.op.symbol :: ' ' :: operandText form a.operand
  | none => []

def conversionText : Option Conversion → List Char
  | some c => " as ".toList ++ c.target.text.toList
  | none => []

end Template

open Template

mutual

def Expr.print (form : FloatForm) : Expr → List Char
  | .mk [] default _ => defaultText form default
  | .mk (c :: more) default _ =>
    c.print form ++ Chain.printMore form more ++ defaultText form default

def Chain.printMore (form : FloatForm) : List Chain → List Char
  | [] => []
  | c :: more => " | ".toList ++ c.print form ++ Chain.printMore form more

def Chain.print (form : FloatForm) : Chain → List Char
  | .mk head steps arithmetic conversion _ =>
    head.print form ++ Step.printAll form steps ++ arithmeticText form arithmetic ++
      conversionText conversion

def Head.print (form : FloatForm) : Head → List Char
  | .name id => id.name.toList
  | .call id [] => id.name.toList ++ ['(', ')']
  | .call id (a :: more) => id.name.toList ++ '(' :: a.print form ++ Arg.printMore form more
  | .key id => keyText id.name

def Arg.printMore (form : FloatForm) : List Arg → List Char
  | [] => [')']
  | a :: more => ", ".toList ++ a.print form ++ Arg.printMore form more

def Arg.print (form : FloatForm) : Arg → List Char
  | .literal l => literalText form l.kind
  | .path c => c.print form

def Step.print (form : FloatForm) : Step → List Char
  | .member id => '.' :: id.name.toList
  | .call id => '.' :: id.name.toList ++ ['(', ')']
  | .key id => keyText id.name
  | .join [] _ => ".\x7b\x7d".toList
  | .join (i :: more) _ => ".\x7b".toList ++ i.print form ++ JoinItem.printMore form more

def Step.printAll (form : FloatForm) : List Step → List Char
  | [] => []
  | s :: rest => s.print form ++ Step.printAll form rest

def JoinItem.printMore (form : FloatForm) : List JoinItem → List Char
  | [] => ['}']
  | i :: more => ", ".toList ++ i.print form ++ JoinItem.printMore form more

def JoinItem.print (form : FloatForm) : JoinItem → List Char
  | .text s _ => quotedText s
  | .expr e => e.print form

end

theorem Chain.printMore_cons (form : FloatForm) (c : Chain) (more : List Chain) :
    Chain.printMore form (c :: more) =
      ' ' :: '|' :: ' ' :: (c.print form ++ Chain.printMore form more) := by
  rw [Chain.printMore]
  rfl

theorem Arg.printMore_cons (form : FloatForm) (a : Arg) (more : List Arg) :
    Arg.printMore form (a :: more) = ',' :: ' ' :: (a.print form ++ Arg.printMore form more) := by
  rw [Arg.printMore]
  rfl

theorem JoinItem.printMore_cons (form : FloatForm) (i : JoinItem) (more : List JoinItem) :
    JoinItem.printMore form (i :: more) =
      ',' :: ' ' :: (i.print form ++ JoinItem.printMore form more) := by
  rw [JoinItem.printMore]
  rfl

def Template.double (x : Char) : List Char := if x = '$' then ['$', '$'] else [x]

def Segment.print (form : FloatForm) : Segment → List Char
  | .text s _ => s.toList.flatMap double
  | .expr e => "$\x7b".toList ++ e.print form ++ ['}']

/-- The canonical text of a template. -/
def Template.print (form : FloatForm) (t : Template) : String :=
  String.ofList (t.segments.flatMap (Segment.print form))

def LiteralKind.IsWritten : LiteralKind → Prop
  | .string _ | .bool _ => True
  | .number n => IsNumeral n
  | .param name => IsName name

-- The chains inside are asked to be in `P`: what can be read one level further down.
section Levels

variable (P : Chain → Prop)

def Expr.Fits (e : Expr) : Prop :=
  e.alternatives ≠ [] ∧ (∀ c ∈ e.alternatives, P c) ∧ ∀ l ∈ e.default, l.kind.IsWritten

/-- A truth value alone is not a path. -/
def Chain.IsPath (c : Chain) : Prop :=
  ∀ id b, c.head = .name id → id.name.toList = boolText b → c.steps ≠ []

def Arg.Fits : Arg → Prop
  | .literal ⟨.param _, _⟩ => False
  | .literal l => l.kind.IsWritten
  | .path c => P c ∧ c.IsPath

def JoinItem.Fits : JoinItem → Prop
  | .text .. => True
  | .expr e => e.Fits P

def Head.Fits : Head → Prop
  | .name id => IsName id.name
  | .call id args => IsName id.name ∧ ∀ a ∈ args, a.Fits P
  | .key id => id.name ≠ ""

def Step.Fits : Step → Prop
  | .member id | .call id => IsName id.name
  | .key id => id.name ≠ ""
  | .join items _ => items ≠ [] ∧ ∀ i ∈ items, i.Fits P

structure Chain.FitsOver (c : Chain) : Prop where
  head : c.head.Fits P
  steps : ∀ s ∈ c.steps, s.Fits P
  joinLast : ∀ s ∈ c.steps.dropLast, s.isJoin = false
  joinEnd : c.steps.getLast?.any Step.isJoin → c.arithmetic = none ∧ c.conversion = none
  arithmetic : ∀ a ∈ c.arithmetic, IsNumeral a.operand
  conversion : ∀ v ∈ c.conversion, castTarget? v.target.text = some v.target

end Levels

/-- Nothing can be written behind a join, so a chain that does not end in one has none. -/
theorem Chain.FitsOver.not_isJoin {c : Chain} {P : Chain → Prop} (hfits : c.FitsOver P)
    (hjoin : c.join? = none) : ∀ s ∈ c.steps, s.isJoin = false := by
  intro s hs
  rcases List.eq_nil_or_concat' c.steps with hnil | ⟨front, last, hsteps⟩
  · simp [hnil] at hs
  · have hlast := hjoin
    have hfront := hfits.joinLast
    rw [Chain.join?, hsteps, List.getLast?_concat] at hlast
    rw [hsteps, List.dropLast_concat] at hfront
    rw [hsteps] at hs
    rcases List.mem_append.mp hs with hs | hs
    · exact hfront s hs
    · obtain rfl := List.mem_singleton.mp hs
      cases s <;> simp_all [Step.isJoin]

theorem Arg.Fits.written {P : Chain → Prop} {l : Literal} (h : Arg.Fits P (.literal l)) :
    l.kind.IsWritten ∧ ∀ name, l.kind ≠ .param name := by
  obtain ⟨kind, span⟩ := l
  cases kind with
  | param name => exact h.elim
  | _ => exact ⟨h, by simp⟩

def Chain.Within : (levels : Nat) → Chain → Prop
  | 0 => fun _ => False
  | levels + 1 => Chain.FitsOver (Chain.Within levels)

def Template.SegmentsFit : List Segment → Prop
  | [] => True
  | .text s _ :: rest =>
    s ≠ "" ∧ (∀ s' span, rest.head? ≠ some (.text s' span)) ∧ SegmentsFit rest
  | .expr e :: rest => e.Fits (Chain.Within maxNesting) ∧ SegmentsFit rest

end PathTemplate
