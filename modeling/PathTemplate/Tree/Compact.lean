import PathTemplate.Tree.Basic

/-!
Merging of common paths. Neighbours that compute the same value, with nothing but literals between
them, become one node: the literals and the children of the later one move behind the children of
the earlier one. A guard keeps the literals for the case that its value is absent as well.
-/

namespace PathTemplate.Tree

mutual

def Node.weight : Node → Nat
  | .mk _ _ _ c o => 1 + weightAll c + weightAll o

def weightAll : List Node → Nat
  | [] => 0
  | n :: ns => n.weight + weightAll ns

end

theorem Node.weight_eq (n : Node) :
    n.weight = 1 + weightAll n.children + weightAll n.otherwise := by
  cases n; simp [Node.weight]

theorem weightAll_append (a b : List Node) : weightAll (a ++ b) = weightAll a + weightAll b := by
  induction a with
  | nil => simp [weightAll]
  | cons n ns ih => simp [weightAll, ih, Nat.add_assoc]

def NodeKind.isMergeable : NodeKind → Bool
  | .field .. | .method .. | .mapAccess _ | .function .. | .math .. | .cast _ => true
  | .optionalGuard | .nullableGuard => true
  | _ => false

def sameHead (a b : Node) : Bool := a.ty == b.ty && a.kind.isMergeable && a.kind == b.kind

/-- The later node `other` put into `keep`, with the literals between them. -/
def merge (keep other : Node) (separators : List Node) : Node :=
  .mk keep.kind keep.ty keep.span
    (keep.children ++ separators ++ other.children)
    (if keep.kind.hasOtherwise then keep.otherwise ++ separators ++ other.otherwise
      else keep.otherwise)

/-- The node with all neighbours merged into it, how many there were, and the nodes after them. -/
def absorb (keep : Node) (rest : List Node) : Node × Nat × List Node :=
  let separators := rest.takeWhile (·.kind.isLiteral)
  match _h : rest.dropWhile (·.kind.isLiteral) with
  | [] => (keep, 0, rest)
  | other :: after =>
    if sameHead keep other then
      let (keep, merged, after) := absorb (merge keep other separators) after
      (keep, merged + 1, after)
    else (keep, 0, rest)
  termination_by rest.length
  decreasing_by
    have hlen := congrArg List.length _h
    have hle := (List.dropWhile_suffix (l := rest) (·.kind.isLiteral)).length_le
    rw [List.length_cons] at hlen
    omega

theorem weightAll_takeWhile_dropWhile (p : Node → Bool) (l : List Node) :
    weightAll (l.takeWhile p) + weightAll (l.dropWhile p) = weightAll l := by
  rw [← weightAll_append, List.takeWhile_append_dropWhile]

/-- Nothing is lost or gained outside the second lists of children: what hangs below the kept node
and what follows weigh less than the list did. -/
theorem absorb_weight (keep : Node) (rest : List Node) :
    weightAll (absorb keep rest).1.children + weightAll (absorb keep rest).2.2 ≤
      weightAll keep.children + weightAll rest ∧
    weightAll (absorb keep rest).1.otherwise + weightAll (absorb keep rest).2.2 ≤
      weightAll keep.otherwise + weightAll rest := by
  fun_induction absorb keep rest with
  | case1 keep rest h => simp
  | case2 keep rest separators other after h hs keep' merged after' heq ih =>
    have hw := weightAll_takeWhile_dropWhile (·.kind.isLiteral) rest
    rw [h] at hw
    have ho := other.weight_eq
    simp only [weightAll] at hw
    simp only [heq] at ih
    have hsep : weightAll separators = weightAll (rest.takeWhile (·.kind.isLiteral)) := rfl
    have hc : weightAll (merge keep other separators).children =
        weightAll keep.children + weightAll separators + weightAll other.children := by
      simp only [merge, Node.children_mk, weightAll_append]
    have he : weightAll (merge keep other separators).otherwise ≤
        weightAll keep.otherwise + weightAll separators + weightAll other.otherwise := by
      simp only [merge, Node.otherwise_mk]
      split
      · simp only [weightAll_append, Nat.le_refl]
      · omega
    dsimp only
    omega
  | case3 => simp

def compactList : List Node → List Node × Nat
  | [] => ([], 0)
  | n :: rest =>
    let r := absorb n rest
    let children := compactList r.1.children
    let otherwise := compactList r.1.otherwise
    let after := compactList r.2.2
    (.mk r.1.kind r.1.ty r.1.span children.1 otherwise.1 :: after.1,
      r.2.1 + children.2 + otherwise.2 + after.2)
  termination_by l => weightAll l
  decreasing_by
    all_goals
      have hw := absorb_weight n rest
      have hn := n.weight_eq
      simp only [weightAll]
      omega

def compact (n : Node) : Node × Nat :=
  let children := compactList n.children
  let otherwise := compactList n.otherwise
  (.mk n.kind n.ty n.span children.1 otherwise.1, children.2 + otherwise.2)

end PathTemplate.Tree
