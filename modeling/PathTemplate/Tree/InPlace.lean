import PathTemplate.Tree.Arena
import PathTemplate.Tree.Compact

/-!
Common paths merged in an arena. The children of a node move to another one, as do the literals
between the two; where a guard repeats the literals in its second list, they are copied.
-/

namespace PathTemplate.Tree

namespace Arena

def isLiteralAt (a : Arena) (id : Nat) : Bool := (a.get? id).any (·.kind.isLiteral)

def sameHeadAt (a : Arena) (keep other : Nat) : Bool :=
  match a.get? keep, a.get? other with
  | some k, some o => k.ty == o.ty && k.kind.isMergeable && k.kind == o.kind
  | _, _ => false

/-- Moves the separators and all that hangs below `other` to `keep`. -/
def mergeInto (a : Arena) (keep other : Nat) (separators : List Nat) : Option Arena := do
  let k ← a.get? keep
  let o ← a.get? other
  let a := a.update other fun s => { s with children := [], otherwise := [] }
  let a := a.update keep fun s => { s with children := s.children ++ separators ++ o.children }
  if k.kind.hasOtherwise then
    let (copies, a) ← each (fun id a => a.copy? id) separators a
    return a.update keep fun s => { s with otherwise := s.otherwise ++ copies ++ o.otherwise }
  else return a

/-- Merges neighbours into a node. Gives how many there were, and the neighbours that are left. -/
def absorbInto (a : Arena) (keep : Nat) (rest : List Nat) : Option (Nat × List Nat × Arena) :=
  match _h : rest.dropWhile a.isLiteralAt with
  | [] => some (0, rest, a)
  | other :: after =>
    if a.sameHeadAt keep other then do
      let b ← a.mergeInto keep other (rest.takeWhile a.isLiteralAt)
      let (merged, after, b) ← b.absorbInto keep after
      return (merged + 1, after, b)
    else some (0, rest, a)
  termination_by rest.length
  decreasing_by
    have hlen := congrArg List.length _h
    have hle := (List.dropWhile_suffix (l := rest) a.isLiteralAt).length_le
    rw [List.length_cons] at hlen
    omega

def compactBelow (merge : List Nat → Arena → Option (List Nat × Nat × Arena)) (id : Nat)
    (a : Arena) : Option (Nat × Arena) := do
  let s ← a.get? id
  let (children, below, a) ← merge s.children a
  let (otherwise, aside, a) ← merge s.otherwise a
  return (below + aside, a.update id fun s => { s with children, otherwise })

/-- Merges neighbours and all below them, if there are at most `bound` nodes. Gives those that are
left and the number of merges. -/
def compactWithin : (bound : Nat) → List Nat → Arena → Option (List Nat × Nat × Arena)
  | _, [], a => some ([], 0, a)
  | 0, _ :: _, _ => none
  | bound + 1, id :: rest, a => do
    let (merged, after, a) ← a.absorbInto id rest
    let (below, a) ← compactBelow (compactWithin bound) id a
    let (after, more, a) ← compactWithin bound after a
    return (id :: after, merged + below + more, a)

def compact? (a : Arena) (root : Nat) : Option (Nat × Arena) :=
  compactBelow (compactWithin a.size) root a

end Arena

end PathTemplate.Tree
