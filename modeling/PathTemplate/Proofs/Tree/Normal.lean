import PathTemplate.Proofs.Tree.Compaction
import PathTemplate.Proofs.Tree.Resolved

namespace PathTemplate.Tree

variable {ρ : Type}

/-- The first node of a list that is not a literal. -/
def firstMark? (l : List Node) : Option Node := (l.dropWhile (·.kind.isLiteral)).head?

/-- No two nodes with nothing but literals between them compute the same value. -/
def Spread (l : List Node) : Prop :=
  ∀ before a separators b after, l = before ++ a :: (separators ++ b :: after) →
    (∀ n ∈ separators, n.kind.isLiteral) → sameHead a b = false

theorem firstMark?_cons (n : Node) (l : List Node) :
    firstMark? (n :: l) = if n.kind.isLiteral then firstMark? l else some n := by
  unfold firstMark?
  rw [List.dropWhile_cons]
  split <;> rfl

theorem firstMark?_append {separators : List Node} (h : ∀ n ∈ separators, n.kind.isLiteral)
    (l : List Node) : firstMark? (separators ++ l) = firstMark? l := by
  unfold firstMark?
  rw [List.dropWhile_append_of_pos h]

theorem NodeKind.isMergeable_of_literal {kind : NodeKind} (h : kind.isLiteral) :
    kind.isMergeable = false := by
  cases kind with
  | literal => rfl
  | _ => simp [NodeKind.isLiteral] at h

theorem sameHead_literal {a b : Node} (h : b.kind.isLiteral) : sameHead a b = false := by
  rw [← Bool.not_eq_true]
  intro hs
  obtain ⟨-, hm, hk⟩ := sameHead_iff.mp hs
  simp [hk, NodeKind.isMergeable_of_literal h] at hm

theorem spread_nil : Spread [] := by
  intro before a separators b after h
  simp at h

theorem spread_cons {a : Node} {l : List Node} :
    Spread (a :: l) ↔ (∀ b, firstMark? l = some b → sameHead a b = false) ∧ Spread l := by
  constructor
  · intro h
    refine ⟨fun b hb => ?_, fun before c separators b after hl hsep => ?_⟩
    · obtain ⟨after, hafter⟩ : ∃ after, l.dropWhile (·.kind.isLiteral) = b :: after := by
        cases hd : l.dropWhile (·.kind.isLiteral) with
        | nil => simp [firstMark?, hd] at hb
        | cons c after =>
          obtain rfl : c = b := by simpa [firstMark?, hd] using hb
          exact ⟨after, rfl⟩
      refine h [] a (l.takeWhile (·.kind.isLiteral)) b after ?_
        (List.all_eq_true.mp List.all_takeWhile)
      rw [← hafter, List.takeWhile_append_dropWhile]
      rfl
    · exact h (a :: before) c separators b after (by rw [hl]; rfl) hsep
  · rintro ⟨hfirst, hl⟩ before c separators b after h hsep
    cases before with
    | nil =>
      obtain ⟨rfl, rfl⟩ := List.cons.inj h
      cases hb : b.kind.isLiteral with
      | true => exact sameHead_literal hb
      | false =>
        refine hfirst b ?_
        rw [firstMark?_append hsep, firstMark?_cons, hb]
        rfl
    | cons d before =>
      obtain ⟨rfl, rfl⟩ := List.cons.inj h
      exact hl before c separators b after rfl hsep

def Node.headOf (n : Node) : NodeKind × FlaggedTy := (n.kind, n.ty)

theorem sameHead_congr {a a' b b' : Node} (ha : a.headOf = a'.headOf) (hb : b.headOf = b'.headOf) :
    sameHead a b = sameHead a' b' := by
  simp only [Node.headOf, Prod.mk.injEq] at ha hb
  simp [sameHead, ha, hb]

theorem absorb_head (keep : Node) (rest : List Node) :
    (absorb keep rest).1.headOf = keep.headOf :=
  absorb_keeps (P := fun k _ => k.headOf = keep.headOf) (fun _ _ _ _ _ _ h => h) keep rest rfl

theorem absorb_settled (keep : Node) (rest : List Node) :
    ∀ b, firstMark? (absorb keep rest).2.2 = some b → sameHead (absorb keep rest).1 b = false := by
  fun_induction absorb keep rest with
  | case1 keep rest hd => simp [firstMark?, hd]
  | case2 keep rest separators other after hd hs keep' merged after' heq ih =>
    rw [heq] at ih
    exact ih
  | case3 keep rest other after hd hs =>
    intro b hb
    obtain rfl : other = b := by simpa [firstMark?, hd] using hb
    simpa using hs

theorem absorb_of_settled {keep : Node} {rest : List Node}
    (h : ∀ b, firstMark? rest = some b → sameHead keep b = false) :
    absorb keep rest = (keep, 0, rest) := by
  unfold absorb
  split
  · rfl
  next other after hd => rw [if_neg (by simp [h other (by simp [firstMark?, hd])])]

theorem compact_head (n : Node) : (compact n).1.headOf = n.headOf := rfl

theorem firstMark?_compactList (l : List Node) :
    (firstMark? (compactList l).1).map Node.headOf = (firstMark? l).map Node.headOf := by
  induction l using neighbours_induction with
  | nil => rw [compactList]
  | cons n rest _ _ ih =>
    have hkind : (compact (absorb n rest).1).1.kind = n.kind := congrArg Prod.fst (absorb_head n rest)
    rw [compactList_cons, firstMark?_cons, firstMark?_cons, hkind]
    cases hn : n.kind.isLiteral with
    | true =>
      rw [absorb_unmergeable (NodeKind.isMergeable_of_literal hn)] at ih ⊢
      exact ih
    | false => exact congrArg some (absorb_head n rest)

theorem compactList_spread (l : List Node) : Spread (compactList l).1 := by
  induction l using neighbours_induction with
  | nil =>
    rw [compactList]
    exact spread_nil
  | cons n rest _ _ ih =>
    rw [compactList_cons]
    refine spread_cons.mpr ⟨fun b hb => ?_, ih⟩
    have hmark := firstMark?_compactList (absorb n rest).2.2
    rw [hb] at hmark
    obtain ⟨b', hb', hhead⟩ := Option.map_eq_some_iff.mp hmark.symm
    rw [← absorb_settled n rest b' hb']
    exact sameHead_congr (compact_head _) hhead.symm

theorem Node.walk_eq (n : Node) :
    n.walk = n :: (Node.walkAll n.children ++ Node.walkAll n.otherwise) := by
  cases n
  rw [Node.walk]
  rfl

theorem Node.walkAll_append (a b : List Node) :
    Node.walkAll (a ++ b) = Node.walkAll a ++ Node.walkAll b := by
  induction a with
  | nil => rfl
  | cons n ns ih => simp [Node.walkAll, ih]

/-- A list of neighbours that is spread, as are all lists below it. -/
def NormalList (l : List Node) : Prop :=
  Spread l ∧ ∀ m ∈ Node.walkAll l, Spread m.children ∧ Spread m.otherwise

theorem compactList_normal (l : List Node) : NormalList (compactList l).1 := by
  refine ⟨compactList_spread l, ?_⟩
  induction l using neighbours_induction with
  | nil => simp [compactList, Node.walkAll]
  | cons n rest ihc iho iha =>
    rw [compactList_cons, Node.walkAll, Node.walk_eq]
    intro m hm
    simp only [List.mem_append, List.mem_cons] at hm
    rcases hm with (rfl | hm | hm) | hm
    · exact ⟨compactList_spread _, compactList_spread _⟩
    · exact ihc m hm
    · exact iho m hm
    · exact iha m hm

theorem compactList_of_normal {l : List Node} (h : NormalList l) : compactList l = (l, 0) := by
  induction l using neighbours_induction with
  | nil => rw [compactList]
  | cons n rest ihc iho iha =>
    obtain ⟨hspread, hbelow⟩ := h
    obtain ⟨hfirst, hrest⟩ := spread_cons.mp hspread
    rw [compactList, absorb_of_settled hfirst]
    rw [absorb_of_settled hfirst] at ihc iho iha
    simp only [Node.walkAll, n.walk_eq, List.mem_append, List.mem_cons] at hbelow
    obtain ⟨hc, ho⟩ := hbelow n (by simp)
    rw [ihc ⟨hc, fun m hm => hbelow m (by simp [hm])⟩,
      iho ⟨ho, fun m hm => hbelow m (by simp [hm])⟩,
      iha ⟨hrest, fun m hm => hbelow m (by simp [hm])⟩]
    cases n
    rfl

theorem compact_of_normal {n : Node} (h : ∀ m ∈ n.walk, Spread m.children ∧ Spread m.otherwise) :
    compact n = (n, 0) := by
  rw [n.walk_eq] at h
  obtain ⟨hc, ho⟩ := h n (by simp)
  rw [compact, compactList_of_normal ⟨hc, fun m hm => h m (by simp [hm])⟩,
    compactList_of_normal ⟨ho, fun m hm => h m (by simp [hm])⟩]
  cases n
  rfl

theorem compact_normal (n : Node) :
    ∀ m ∈ (compact n).1.walk, Spread m.children ∧ Spread m.otherwise := by
  have hc := compactList_normal n.children
  have ho := compactList_normal n.otherwise
  rw [Node.walk_eq]
  intro m hm
  simp only [List.mem_append, List.mem_cons] at hm
  rcases hm with rfl | hm | hm
  · exact ⟨hc.1, ho.1⟩
  · exact hc.2 m hm
  · exact ho.2 m hm

def marks (l : List Node) : Nat := (Node.walkAll l).countP fun n => !n.kind.isLiteral

theorem marks_append (a b : List Node) : marks (a ++ b) = marks a + marks b := by
  simp [marks, Node.walkAll_append]

theorem marks_cons (n : Node) (l : List Node) :
    marks (n :: l) =
      (if n.kind.isLiteral then 0 else 1) + marks n.children + marks n.otherwise + marks l := by
  simp only [marks, Node.walkAll, n.walk_eq, List.countP_append, List.countP_cons]
  cases n.kind.isLiteral with
  | false =>
    simp
    omega
  | true => simp

theorem marks_literals {s : Scope ρ} {cur : FlaggedTy} {l : List Node}
    (hl : ∀ n ∈ l, n.kind.isLiteral) (ht : ∀ n ∈ l, Typed s cur n) : marks l = 0 := by
  induction l with
  | nil => rfl
  | cons n rest ih =>
    have hn := hl n (by simp)
    have hrest := ih (fun m hm => hl m (by simp [hm])) fun m hm => ht m (by simp [hm])
    have hf := ht n (by simp)
    obtain ⟨kind, ty, span, children, otherwise⟩ := n
    cases kind with
    | literal text =>
      obtain ⟨rfl, rfl⟩ := hf.fits
      rw [marks_cons, hrest]
      rfl
    | _ => simp [Node.kind, NodeKind.isLiteral] at hn

/-- Nodes that can be merged have a second list of children only if both lists are merged. -/
theorem Typed.otherwise_of_mergeable {s : Scope ρ} {cur : FlaggedTy} {n : Node} (h : Typed s cur n)
    (hm : n.kind.isMergeable) (ho : n.kind.hasOtherwise = false) : n.otherwise = [] := by
  obtain ⟨kind, ty, span, children, otherwise⟩ := n
  have hf := h.fits
  cases kind with
  | field | method | mapAccess | function => exact hf.2.2.2
  | math => exact hf.2.2.2.2.2
  | cast => exact hf.2.2.2.2
  | optionalGuard | nullableGuard => simp [Node.kind, NodeKind.hasOtherwise] at ho
  | _ => simp [Node.kind, NodeKind.isMergeable] at hm

theorem Typed.of_mem_children {s : Scope ρ} {cur : FlaggedTy} {n : Node} (h : Typed s cur n) :
    ∀ c ∈ n.children, Typed s (n.kind.passes cur n.ty) c := by
  cases n
  exact h.children

theorem Typed.of_mem_otherwise {s : Scope ρ} {cur : FlaggedTy} {n : Node} (h : Typed s cur n) :
    ∀ c ∈ n.otherwise, Typed s cur c := by
  cases n
  exact h.otherwise

theorem marks_merge {s : Scope ρ} {cur : FlaggedTy} {keep other : Node} {separators after : List Node}
    (hs : sameHead keep other) (hl : ∀ n ∈ separators, n.kind.isLiteral)
    (ht : ∀ n ∈ keep :: (separators ++ other :: after), Typed s cur n) :
    marks (merge keep other separators :: after) + 1 =
      marks (keep :: (separators ++ other :: after)) := by
  obtain ⟨hty, hm, hk⟩ := sameHead_iff.mp hs
  have hsep : marks separators = 0 := marks_literals hl fun n hn => ht n (by simp [hn])
  have hlit : keep.kind.isLiteral = false := by
    rw [← Bool.not_eq_true]
    intro hlit
    simp [NodeKind.isMergeable_of_literal hlit] at hm
  have hkind : (merge keep other separators).kind = keep.kind := rfl
  have hother : marks (merge keep other separators).otherwise =
      marks keep.otherwise + marks other.otherwise := by
    simp only [merge, Node.otherwise_mk]
    cases ho : keep.kind.hasOtherwise with
    | true => simp [marks_append, hsep]
    | false =>
      rw [(ht other (by simp)).otherwise_of_mergeable (hk ▸ hm) (hk ▸ ho)]
      rfl
  have hchildren : marks (merge keep other separators).children =
      marks keep.children + marks other.children := by
    simp [merge, marks_append, hsep]
  rw [marks_cons, marks_cons, marks_append, marks_cons, hkind, ← hk, hlit, hother, hchildren, hsep]
  simp only [Bool.false_eq_true, if_false]
  omega

theorem absorb_induction {P : Node → List Node → Node × Nat × List Node → Prop}
    (stop : ∀ keep rest, P keep rest (keep, 0, rest))
    (step : ∀ keep separators other after r, (∀ n ∈ separators, n.kind.isLiteral) →
      sameHead keep other → P (merge keep other separators) after r →
      P keep (separators ++ other :: after) (r.1, r.2.1 + 1, r.2.2))
    (keep : Node) (rest : List Node) : P keep rest (absorb keep rest) := by
  fun_induction absorb keep rest with
  | case1 => exact stop _ _
  | case2 keep rest separators other after hd hs keep' merged after' heq ih =>
    have hsplit : separators ++ other :: after = rest := by
      rw [← hd]
      exact List.takeWhile_append_dropWhile
    have hlit : ∀ n ∈ separators, n.kind.isLiteral := List.all_eq_true.mp List.all_takeWhile
    rw [heq] at ih
    have h := step keep separators other after _ hlit hs ih
    rwa [hsplit] at h
  | case3 => exact stop _ _

theorem absorb_counts {s : Scope ρ} {cur : FlaggedTy} (keep : Node) (rest : List Node) :
    (∀ n ∈ keep :: rest, Typed s cur n) →
      (absorb keep rest).2.1 + marks ((absorb keep rest).1 :: (absorb keep rest).2.2) =
        marks (keep :: rest) := by
  refine absorb_induction (P := fun keep rest r => (∀ n ∈ keep :: rest, Typed s cur n) →
    r.2.1 + marks (r.1 :: r.2.2) = marks (keep :: rest)) (fun _ _ _ => Nat.zero_add _) ?_ keep rest
  intro keep separators other after r hl hs ih ht
  have hmerged : Typed s cur (merge keep other separators) :=
    .merge hs hl (ht _ (by simp)) (ht _ (by simp)) fun n hn => ht n (by simp [hn])
  have hrest := ih (List.forall_mem_cons.mpr ⟨hmerged, fun n hn => ht n (by simp [hn])⟩)
  have hstep := marks_merge hs hl ht
  dsimp only
  omega

theorem marks_compact_cons (n : Node) (l : List Node) :
    marks ((compact n).1 :: l) = (if n.kind.isLiteral then 0 else 1) +
      marks (compactList n.children).1 + marks (compactList n.otherwise).1 + marks l :=
  marks_cons _ _

theorem compactList_counts {s : Scope ρ} (l : List Node) :
    ∀ cur, (∀ n ∈ l, Typed s cur n) →
      (compactList l).2 + marks (compactList l).1 = marks l := by
  induction l using neighbours_induction with
  | nil => simp [compactList]
  | cons n rest ihc iho iha =>
    intro cur ht
    have hr := absorb_typed ht
    have hn := hr (absorb n rest).1 (by simp)
    have hmerged := absorb_counts n rest ht
    have hchildren := ihc _ hn.of_mem_children
    have hotherwise := iho _ hn.of_mem_otherwise
    have hafter := iha cur fun c hc => hr c (by simp [hc])
    have hnumber : (compactList (n :: rest)).2 = (absorb n rest).2.1 +
        (compactList (absorb n rest).1.children).2 + (compactList (absorb n rest).1.otherwise).2 +
        (compactList (absorb n rest).2.2).2 := by
      rw [compactList]
    rw [compactList_cons, marks_compact_cons, hnumber]
    rw [marks_cons] at hmerged
    omega

/-- The tree of a template, with common paths merged: no list of children holds two nodes that
compute the same value with nothing but literals between them. Merging it again does nothing. The
number of merges is that of the nodes other than literals that are gone. -/
theorem ofTemplate_compact_normal {s : Scope ρ} {sink : String} {t : Template} {n : Node}
    (h : ofTemplate s sink t = .ok n) :
    (∀ m ∈ (compact n).1.walk, Spread m.children ∧ Spread m.otherwise) ∧
      compact (compact n).1 = ((compact n).1, 0) ∧
      (compact n).2 + (compact n).1.walk.countP (fun m => !m.kind.isLiteral) =
        n.walk.countP fun m => !m.kind.isLiteral := by
  refine ⟨compact_normal n, compact_of_normal (compact_normal n), ?_⟩
  obtain ⟨-, children, rfl, ht⟩ := ofTemplate_typed h
  have hcount := compactList_counts children _ ht
  have hroot : ∀ children, (Node.root s.input sink children).walk.countP
      (fun m => !m.kind.isLiteral) = marks children + 1 := by
    intro children
    simp [Node.root, Node.walk, Node.walkAll, marks, Node.kind, NodeKind.isLiteral]
  have hnumber : (compact (.root s.input sink children)).2 = (compactList children).2 := by
    simp [compact, Node.root, compactList]
  rw [compact_root, hroot, hroot, hnumber]
  omega

def addressSchema : Schema Unit :=
  ⟨[⟨"Person", "Person", [⟨"address", .field, ⟨.record "Address", true, false⟩, fun _ => .null⟩]⟩,
    ⟨"Address", "Address", [⟨"city", .field, .plain .string, fun _ => .null⟩,
      ⟨"zip", .field, .plain .string, fun _ => .null⟩]⟩]⟩

def addressScope : Scope Unit := ⟨addressSchema, .empty, .strict, "Person"⟩

def addressPart (name : String) : Segment :=
  .expr (.mk [.mk (.name ⟨"address", .nowhere⟩) [.member ⟨name, .nowhere⟩] none none .nowhere] none
    .nowhere)

def addressLine : Template := ⟨[addressPart "city", .text ", " .nowhere, addressPart "zip"]⟩

theorem ofTemplate_compact_normal_address :
    ∃ n, ofTemplate addressScope "text" addressLine = .ok n ∧ (compact n).2 = 2 ∧
      (∀ m ∈ (compact n).1.walk, Spread m.children ∧ Spread m.otherwise) ∧
      compact (compact n).1 = ((compact n).1, 0) ∧
      n.walk.countP (fun m => !m.kind.isLiteral) = 9 ∧
      (compact n).1.walk.countP (fun m => !m.kind.isLiteral) = 7 := by
  have hok : ∃ n, ofTemplate addressScope "text" addressLine = .ok n ∧ (compact n).2 = 2 ∧
      n.walk.countP (fun m => !m.kind.isLiteral) = 9 := by
    refine ⟨_, rfl, ?_⟩
    decide +kernel
  obtain ⟨n, hn, htwo, hnine⟩ := hok
  obtain ⟨hnormal, hagain, hcount⟩ := ofTemplate_compact_normal hn
  exact ⟨n, hn, htwo, hnormal, hagain, hnine, by omega⟩

end PathTemplate.Tree
