import PathTemplate.Tree.Basic

/-!
Trees stored as numbered nodes. A stored node names its children by their numbers, and a new node
takes the next free number, so that numbers keep their meaning while the arena grows. A copy of a
stored tree shares no node with it.
-/

namespace PathTemplate.Tree

structure Slot where
  kind : NodeKind
  ty : FlaggedTy
  span : Span
  children : List Nat
  otherwise : List Nat
  deriving DecidableEq, Repr

structure Arena where
  slots : List Slot
  deriving DecidableEq, Repr

namespace Arena

def empty : Arena := ⟨[]⟩

def size (a : Arena) : Nat := a.slots.length

def get? (a : Arena) (id : Nat) : Option Slot := a.slots[id]?

def insert (a : Arena) (s : Slot) : Nat × Arena := (a.size, ⟨a.slots ++ [s]⟩)

mutual

/-- Stores a tree, every node after those below it. -/
def store : Node → Arena → Nat × Arena
  | .mk kind ty span children otherwise, a =>
    let (children, a) := storeAll children a
    let (otherwise, a) := storeAll otherwise a
    a.insert ⟨kind, ty, span, children, otherwise⟩

def storeAll : List Node → Arena → List Nat × Arena
  | [], a => ([], a)
  | n :: ns, a =>
    let (id, a) := store n a
    let (ids, a) := storeAll ns a
    (id :: ids, a)

end

def treeWithin (a : Arena) : (depth : Nat) → Nat → Option Node
  | 0, _ => none
  | depth + 1, id => do
    let s ← a.get? id
    let children ← s.children.mapM (a.treeWithin depth)
    let otherwise ← s.otherwise.mapM (a.treeWithin depth)
    return .mk s.kind s.ty s.span children otherwise

/-- The tree below a number. No path in it is longer than there are nodes; when one goes in a circle
or ends at a number that is not taken, there is no tree. -/
def tree? (a : Arena) (id : Nat) : Option Node := a.treeWithin a.size id

/-- What `f` gives for numbers in turn, each in the arena that the one before has left. -/
def each (f : Nat → Arena → Option (Nat × Arena)) : List Nat → Arena → Option (List Nat × Arena)
  | [], a => some ([], a)
  | id :: ids, a => do
    let (id, a) ← f id a
    let (ids, a) ← each f ids a
    return (id :: ids, a)

def copyWithin : (depth : Nat) → Nat → Arena → Option (Nat × Arena)
  | 0, _, _ => none
  | depth + 1, id, a => do
    let s ← a.get? id
    let (children, a) ← each (copyWithin depth) s.children a
    let (otherwise, a) ← each (copyWithin depth) s.otherwise a
    return a.insert { s with children, otherwise }

def copy? (a : Arena) (id : Nat) : Option (Nat × Arena) := copyWithin a.size id a

def update (a : Arena) (id : Nat) (f : Slot → Slot) : Arena := ⟨a.slots.modify id f⟩

def link (a : Arena) (parent child : Nat) : Arena :=
  ⟨a.slots.modify parent fun s => { s with children := s.children ++ [child] }⟩

/-- Makes a stored node the last one in the second list of another. -/
def linkOtherwise (a : Arena) (parent child : Nat) : Arena :=
  a.update parent fun s => { s with otherwise := s.otherwise ++ [child] }

def follow? (a : Arena) : (path : List Nat) → Nat → Option Nat
  | [], id => some id
  | i :: path, id => do a.follow? path (← (← a.get? id).children[i]?)

end Arena

end PathTemplate.Tree
