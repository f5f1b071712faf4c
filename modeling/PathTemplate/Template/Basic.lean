import PathTemplate.Constant
import PathTemplate.Span

namespace PathTemplate

structure Ident where
  name : String
  span : Span
  deriving DecidableEq, Repr

inductive LiteralKind where
  | string (s : String)
  | number (n : Operand)
  | bool (b : Bool)
  | param (name : String)
  deriving DecidableEq, Repr

structure Literal where
  kind : LiteralKind
  span : Span
  deriving DecidableEq, Repr

structure Arithmetic where
  op : Operator
  operand : Operand
  span : Span
  deriving DecidableEq, Repr

structure Conversion where
  target : Ty
  span : Span
  deriving DecidableEq, Repr

mutual

inductive Expr where
  | mk (alternatives : List Chain) (default : Option Literal) (span : Span)

inductive Chain where
  | mk (head : Head) (steps : List Step) (arithmetic : Option Arithmetic)
      (conversion : Option Conversion) (span : Span)

inductive Head where
  | name (id : Ident)
  | call (name : Ident) (args : List Arg)
  | key (id : Ident)

inductive Step where
  | member (id : Ident)
  | call (id : Ident)
  | key (id : Ident)
  | join (items : List JoinItem) (span : Span)

inductive JoinItem where
  | text (text : String) (span : Span)
  | expr (e : Expr)

inductive Arg where
  | literal (l : Literal)
  | path (c : Chain)

end

namespace Expr

def alternatives : Expr → List Chain
  | .mk a _ _ => a

def default : Expr → Option Literal
  | .mk _ d _ => d

def span : Expr → Span
  | .mk _ _ s => s

end Expr

namespace Chain

def head : Chain → Head
  | .mk h _ _ _ _ => h

def steps : Chain → List Step
  | .mk _ s _ _ _ => s

def arithmetic : Chain → Option Arithmetic
  | .mk _ _ a _ _ => a

def conversion : Chain → Option Conversion
  | .mk _ _ _ c _ => c

def span : Chain → Span
  | .mk _ _ _ _ s => s

end Chain

def Step.isJoin : Step → Bool
  | .join .. => true
  | _ => false

def Chain.join? (c : Chain) : Option (List JoinItem) :=
  match c.steps.getLast? with
  | some (.join items _) => some items
  | _ => none

def Arg.span : Arg → Span
  | .literal l => l.span
  | .path c => c.span

inductive Segment where
  /-- Text with every doubled dollar sign written once. -/
  | text (text : String) (span : Span)
  | expr (e : Expr)

structure Template where
  segments : List Segment

end PathTemplate
