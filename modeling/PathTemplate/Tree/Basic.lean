import PathTemplate.Access
import PathTemplate.Span

/-!
Render trees. A node computes a value from the value of its parent and hands it to its children, or
writes something. Guards and alternations have a second list of children for when there is nothing
to go on with.
-/

namespace PathTemplate.Tree

inductive NodeKind where
  | root (input sink : String)
  | literal (text : String)
  | field (owner name : String)
  | method (owner name : String)
  | mapAccess (key : String)
  | math (op : Operator) (operand : Operand)
  | cast (target : Ty)
  | function (name : String) (args : List Argument)
  /-- Goes on with the children unless an optional value is missing. -/
  | optionalGuard
  | nullableGuard
  /-- The first child that writes something. -/
  | orFallback
  /-- All children, written apart and then put in. -/
  | concatenation
  /-- Writes the current value, or the default when it is absent. -/
  | print (default : Option Fallback)
  | default (value : Fallback)
  /-- Stands for a name that leads nowhere and writes nothing. -/
  | notFound (name : String)
  deriving DecidableEq, Repr, Inhabited

namespace NodeKind

def name : NodeKind → String
  | .root .. => "Root"
  | .literal _ => "Literal"
  | .field .. => "Field"
  | .method .. => "Method"
  | .mapAccess _ => "MapAccess"
  | .math .. => "Math"
  | .cast _ => "Cast"
  | .function .. => "Function"
  | .optionalGuard => "OptionalGuard"
  | .nullableGuard => "NullableGuard"
  | .orFallback => "OrFallback"
  | .concatenation => "Concatenation"
  | .print _ => "Print"
  | .default _ => "Default"
  | .notFound _ => "NotFound"

def hasOtherwise : NodeKind → Bool
  | .optionalGuard | .nullableGuard | .orFallback => true
  | _ => false

def isGuard : NodeKind → Bool
  | .optionalGuard | .nullableGuard => true
  | _ => false

def isLiteral : NodeKind → Bool
  | .literal _ => true
  | _ => false

def isNotFound : NodeKind → Bool
  | .notFound _ => true
  | _ => false

def detail : NodeKind → String
  | .root input sink => input ++ " -> " ++ sink
  | .literal text => Text.quoted text
  | .field _ name => name
  | .method _ name => name
  | .mapAccess key => "[" ++ Text.quoted key ++ "]"
  | .math op operand => op.text ++ " " ++ operand.text
  | .cast target => "as " ++ target.text
  | .function name args => name ++ "/" ++ toString args.length
  | .print (some value) => "?? " ++ value.text
  | .default value => "?? " ++ value.text
  | .notFound name => name
  | _ => ""

end NodeKind

/-- `otherwise` is empty for kinds that have no use for it. -/
inductive Node where
  | mk (kind : NodeKind) (ty : FlaggedTy) (span : Span) (children otherwise : List Node)
  deriving Inhabited

namespace Node

def kind : Node → NodeKind
  | .mk k _ _ _ _ => k

def ty : Node → FlaggedTy
  | .mk _ t _ _ _ => t

def span : Node → Span
  | .mk _ _ s _ _ => s

def children : Node → List Node
  | .mk _ _ _ c _ => c

def otherwise : Node → List Node
  | .mk _ _ _ _ o => o

@[simp] theorem children_mk (k : NodeKind) (t : FlaggedTy) (s : Span) (c o : List Node) :
    (Node.mk k t s c o).children = c := rfl

@[simp] theorem otherwise_mk (k : NodeKind) (t : FlaggedTy) (s : Span) (c o : List Node) :
    (Node.mk k t s c o).otherwise = o := rfl

def leaf (kind : NodeKind) (ty : FlaggedTy) (span : Span) : Node := .mk kind ty span [] []

def withChildren (n : Node) (children : List Node) : Node :=
  .mk n.kind n.ty n.span children n.otherwise

def withOtherwise (n : Node) (otherwise : List Node) : Node :=
  .mk n.kind n.ty n.span n.children otherwise

mutual

/-- The node and all below it, parents first and the second list of children last. -/
def walk : Node → List Node
  | .mk k t s c o => .mk k t s c o :: (walkAll c ++ walkAll o)

def walkAll : List Node → List Node
  | [] => []
  | n :: ns => walk n ++ walkAll ns

end

def size (n : Node) : Nat := n.walk.length

def count (n : Node) (kind : String) : Nat := n.walk.countP fun m => m.kind.name == kind

def indent (n : Nat) : String := String.ofList (List.replicate n ' ')

mutual

def dumpAt (depth : Nat) : Node → String
  | .mk k t _ c o =>
    indent (depth * 2) ++ k.name ++ " " ++ k.detail ++ " : " ++ t.text ++ "\n" ++
      dumpAll (depth + 1) c ++
      (if o.isEmpty then ""
        else indent (depth * 2 + 1) ++ "else\n" ++ dumpAll (depth + 1) o)

def dumpAll (depth : Nat) : List Node → String
  | [] => ""
  | n :: ns => dumpAt depth n ++ dumpAll depth ns

end

def dump (n : Node) : String := dumpAt 0 n

def root (input sink : String) (children : List Node) : Node :=
  .mk (.root input sink) (.plain (.record input)) .nowhere children []

end Node

end PathTemplate.Tree
