import PathTemplate.Proofs.Packed.RoundTrip
import PathTemplate.Proofs.Tree.Agreement

/-!
What hashed bytes tell. The bytes of a key give back the key, those of a schema and of functions all
that a template can see of them. So with equal bytes the registrations agree, whatever the order in
which they were made.
-/

namespace PathTemplate

namespace Packed

/-- Forms of items in `P` that begin the same bytes are forms of items with the same view, and the
same bytes follow them. -/
def Delimited {α β : Type} (form : α → List UInt8) (view : α → β) (P : α → Prop) : Prop :=
  ∀ a b, P a → P b → ∀ r r', form a ++ r = form b ++ r' → view a = view b ∧ r = r'

theorem Delimited.of_read {α : Type} {form : α → List UInt8} {P : α → Prop} {read : Reader α}
    (h : ∀ a, P a → ∀ rest, read (form a ++ rest) = some (a, rest)) : Delimited form id P := by
  intro a b ha hb r r' heq
  have hread := h a ha r
  rw [heq, h b hb r'] at hread
  cases hread
  exact ⟨rfl, rfl⟩

theorem delimited_string : Delimited string id fun s => isSizedText s :=
  .of_read fun _ h => readString_string h

theorem delimited_word : Delimited word id (· < 2 ^ 64) :=
  .of_read fun _ h => readWord_word h

theorem delimited_flag : Delimited flag id fun _ => True :=
  .of_read fun b _ => readFlag_flag b

theorem delimited_ty : Delimited ty id fun t => isSizedTy t := by
  intro a b ha hb r r' heq
  -- Levels that are enough for both.
  have hread := readTy_ty ha ((ty a).length + (ty b).length) (by omega) r
  rw [heq, readTy_ty hb _ (by omega) r'] at hread
  cases hread
  exact ⟨rfl, rfl⟩

theorem delimited_flaggedTy : Delimited flaggedTy id fun t => isSizedTy t.ty := by
  intro a b ha hb r r' heq
  simp only [flaggedTy, List.append_assoc] at heq
  obtain ⟨hty, heq⟩ := delimited_ty _ _ ha hb _ _ heq
  obtain ⟨hoptional, heq⟩ := delimited_flag _ _ trivial trivial _ _ heq
  obtain ⟨hnullable, heq⟩ := delimited_flag _ _ trivial trivial _ _ heq
  refine ⟨?_, heq⟩
  cases a
  cases b
  simp_all

theorem Delimited.flatMap {α β : Type} {form : α → List UInt8} {view : α → β} {P : α → Prop}
    (h : Delimited form view P) (items items' : List α) (hlen : items.length = items'.length)
    (hP : ∀ a ∈ items, P a) (hP' : ∀ a ∈ items', P a) (r r' : List UInt8)
    (heq : items.flatMap form ++ r = items'.flatMap form ++ r') :
    items.map view = items'.map view ∧ r = r' := by
  induction items generalizing items' with
  | nil =>
    obtain rfl : items' = [] := List.eq_nil_of_length_eq_zero hlen.symm
    exact ⟨rfl, heq⟩
  | cons a items ih =>
    match items', hlen with
    | b :: items', hlen =>
      simp only [List.flatMap_cons, List.append_assoc] at heq
      obtain ⟨hview, heq⟩ := h _ _ (hP a List.mem_cons_self) (hP' b List.mem_cons_self) _ _ heq
      obtain ⟨hviews, heq⟩ := ih items' (by simpa using hlen)
        (fun c hc => hP c (List.mem_cons_of_mem _ hc))
        (fun c hc => hP' c (List.mem_cons_of_mem _ hc)) heq
      exact ⟨by rw [List.map_cons, List.map_cons, hview, hviews], heq⟩

theorem Delimited.list {α β : Type} {form : α → List UInt8} {view : α → β} {P : α → Prop}
    (h : Delimited form view P) : Delimited (Packed.list form) (List.map view)
      fun items => items.length < 2 ^ 64 ∧ ∀ a ∈ items, P a := by
  intro items items' ha hb r r' heq
  simp only [Packed.list, List.append_assoc] at heq
  obtain ⟨hlen, heq⟩ := delimited_word _ _ ha.1 hb.1 _ _ heq
  exact h.flatMap items items' hlen ha.2 hb.2 r r' heq

end Packed

open Packed

def Source.isSized (s : Source) : Bool :=
  isSizedText s.template && isSizedText s.input && isSizedText s.sink

def Key.isSized (k : Key) : Bool := k.source.isSized && k.maxDepth < 2 ^ 64

theorem Key.eq_of_packed_eq {k k' : Key} (h : k.isSized) (h' : k'.isSized)
    (heq : k.packed = k'.packed) : k = k' := by
  obtain ⟨⟨template, input, sink⟩, policy, optimize, maxDepth⟩ := k
  obtain ⟨⟨template', input', sink'⟩, policy', optimize', maxDepth'⟩ := k'
  simp only [isSized, Source.isSized, Bool.and_eq_true, decide_eq_true_eq] at h h'
  obtain ⟨⟨⟨ht, hi⟩, hs⟩, hd⟩ := h
  obtain ⟨⟨⟨ht', hi'⟩, hs'⟩, hd'⟩ := h'
  simp only [packed, List.append_assoc] at heq
  obtain ⟨htemplate, heq⟩ := delimited_string _ _ ht ht' _ _ heq
  obtain ⟨hinput, heq⟩ := delimited_string _ _ hi hi' _ _ heq
  obtain ⟨hsink, heq⟩ := delimited_string _ _ hs hs' _ _ heq
  obtain ⟨hpolicy, heq⟩ := delimited_flag _ _ trivial trivial _ _ heq
  obtain ⟨hoptimize, heq⟩ := delimited_flag _ _ trivial trivial _ _ heq
  obtain ⟨hdepth, -⟩ := delimited_word _ _ hd hd' [] [] (by simpa using heq)
  have hpolicy' : policy = policy' := by
    cases policy <;> cases policy' <;> simp_all
  simp_all

theorem filter_mergeSort {α : Type} {le : α → α → Bool} (htrans : ∀ a b c, le a b → le b c → le a c)
    (htotal : ∀ a b, le a b || le b a) {p : α → Bool} (hp : ∀ a b, p a → p b → le a b)
    (l : List α) : (l.mergeSort le).filter p = l.filter p := by
  have hpairwise : (l.filter p).Pairwise fun a b => le a b := by
    refine List.pairwise_of_forall_mem_list ?_
    intro a ha b hb
    exact hp a b (List.mem_filter.mp ha).2 (List.mem_filter.mp hb).2
  have hsub : ((l.filter p).filter p).Sublist ((l.mergeSort le).filter p) :=
    (List.sublist_mergeSort htrans htotal hpairwise List.filter_sublist).filter p
  rw [List.filter_filter] at hsub
  simp only [Bool.and_self] at hsub
  refine (hsub.eq_of_length ?_).symm
  exact ((List.mergeSort_perm l le).filter p).length_eq.symm

theorem find?_mergeSort {α : Type} {le : α → α → Bool} (htrans : ∀ a b c, le a b → le b c → le a c)
    (htotal : ∀ a b, le a b || le b a) {p : α → Bool} (hp : ∀ a b, p a → p b → le a b)
    (l : List α) : (l.mergeSort le).find? p = l.find? p := by
  rw [← List.head?_filter, ← List.head?_filter, filter_mergeSort htrans htotal hp]

/-- Lists with the same items are sorted the same, where no two items are level. -/
theorem mergeSort_eq_of_perm {α : Type} {le : α → α → Bool}
    (htrans : ∀ a b c, le a b → le b c → le a c) (htotal : ∀ a b, le a b || le b a) {l l' : List α}
    (hanti : ∀ a ∈ l, ∀ b ∈ l, le a b → le b a → a = b) (h : l.Perm l') :
    l.mergeSort le = l'.mergeSort le := by
  refine List.Perm.eq_of_pairwise ?_ (List.pairwise_mergeSort htrans htotal l)
    (List.pairwise_mergeSort htrans htotal l') ?_
  · intro a b ha hb hab hba
    exact hanti a (List.mem_mergeSort.mp ha) b (h.mem_iff.mpr (List.mem_mergeSort.mp hb)) hab hba
  · exact ((List.mergeSort_perm l le).trans h).trans (List.mergeSort_perm l' le).symm

theorem text_le_trans {α : Type} (f : α → String) (a b c : α) :
    decide (f a ≤ f b) → decide (f b ≤ f c) → decide (f a ≤ f c) := by
  simp only [decide_eq_true_eq]
  exact String.le_trans

theorem text_le_total {α : Type} (f : α → String) (a b : α) :
    decide (f a ≤ f b) || decide (f b ≤ f a) := by
  simpa using String.le_total (f a) (f b)

theorem pair_le_trans {α : Type} (f : α → String) (g : α → Nat) (a b c : α) :
    (f a < f b || (f a == f b && g a ≤ g b)) → (f b < f c || (f b == f c && g b ≤ g c)) →
    (f a < f c || (f a == f c && g a ≤ g c)) := by
  simp only [Bool.or_eq_true, Bool.and_eq_true, decide_eq_true_eq, beq_iff_eq]
  rintro (hab | ⟨hab, hab'⟩) (hbc | ⟨hbc, hbc'⟩)
  · exact .inl (String.lt_trans hab hbc)
  · exact .inl (hbc ▸ hab)
  · exact .inl (hab ▸ hbc)
  · exact .inr ⟨hab.trans hbc, by omega⟩

theorem pair_le_total {α : Type} (f : α → String) (g : α → Nat) (a b : α) :
    (f a < f b || (f a == f b && g a ≤ g b)) || (f b < f a || (f b == f a && g b ≤ g a)) := by
  simp only [Bool.or_eq_true, Bool.and_eq_true, decide_eq_true_eq, beq_iff_eq]
  by_cases hlt : f a < f b
  · exact .inl (.inl hlt)
  · by_cases hgt : f b < f a
    · exact .inr (.inl hgt)
    · have heq : f a = f b := String.le_antisymm (String.not_lt.mp hgt) (String.not_lt.mp hlt)
      rcases Nat.le_total (g a) (g b) with hle | hle
      · exact .inl (.inr ⟨heq, hle⟩)
      · exact .inr (.inr ⟨heq.symm, hle⟩)

theorem pair_le_antisymm {α : Type} (f : α → String) (g : α → Nat) (a b : α) :
    (f a < f b || (f a == f b && g a ≤ g b)) → (f b < f a || (f b == f a && g b ≤ g a)) →
    f a = f b ∧ g a = g b := by
  simp only [Bool.or_eq_true, Bool.and_eq_true, decide_eq_true_eq, beq_iff_eq]
  rintro (hab | ⟨hab, hab'⟩) (hba | ⟨hba, hba'⟩)
  · exact absurd hba (String.lt_asymm hab)
  · exact absurd (hba ▸ hab) (String.lt_irrefl _)
  · exact absurd (hab ▸ hba) (String.lt_irrefl _)
  · exact ⟨hab, by omega⟩

variable {ρ : Type}

def Member.view (m : Member ρ) : String × MemberKind × FlaggedTy := (m.name, m.kind, m.ty)

def Member.isSized (m : Member ρ) : Bool := isSizedText m.name && isSizedTy m.ty.ty

def Shape.view (s : Shape ρ) : String × List (String × MemberKind × FlaggedTy) :=
  (s.name, s.members.map Member.view)

def Shape.isSized (s : Shape ρ) : Bool :=
  isSizedText s.name && s.members.length < 2 ^ 64 && s.members.all Member.isSized

theorem delimited_member : Delimited (member (ρ := ρ)) Member.view fun m => m.isSized := by
  intro a b ha hb r r' heq
  simp only [Member.isSized, Bool.and_eq_true] at ha hb
  simp only [member, List.append_assoc] at heq
  obtain ⟨hname, heq⟩ := delimited_string _ _ ha.1 hb.1 _ _ heq
  obtain ⟨hkind, heq⟩ := delimited_flag _ _ trivial trivial _ _ heq
  obtain ⟨hty, heq⟩ := delimited_flaggedTy _ _ ha.2 hb.2 _ _ heq
  have hkind' : a.kind = b.kind := by
    cases ha : a.kind <;> cases hb : b.kind <;> simp_all
  refine ⟨?_, heq⟩
  simp_all [Member.view]

theorem delimited_shape : Delimited (shape (ρ := ρ)) Shape.view fun s => s.isSized := by
  intro a b ha hb r r' heq
  simp only [Shape.isSized, Bool.and_eq_true, decide_eq_true_eq, List.all_eq_true] at ha hb
  simp only [shape, List.append_assoc] at heq
  obtain ⟨hname, heq⟩ := delimited_string _ _ ha.1.1 hb.1.1 _ _ heq
  obtain ⟨hmembers, heq⟩ := delimited_member.list _ _ ⟨ha.1.2, ha.2⟩ ⟨hb.1.2, hb.2⟩ _ _ heq
  refine ⟨?_, heq⟩
  simp_all [Shape.view]

namespace Schema

def isSized (s : Schema ρ) : Bool := s.shapes.length < 2 ^ 64 && s.shapes.all Shape.isSized

def views (s : Schema ρ) : List (String × List (String × MemberKind × FlaggedTy)) :=
  (s.shapes.mergeSort fun a b => a.name ≤ b.name).map Shape.view

theorem views_eq {s s' : Schema ρ} (h : s.isSized) (h' : s'.isSized)
    (heq : s.material = s'.material) : s.views = s'.views := by
  simp only [isSized, Bool.and_eq_true, decide_eq_true_eq, List.all_eq_true] at h h'
  refine (delimited_shape.list _ _ ?_ ?_ [] [] (by simpa [material] using heq)).1
  · simpa using h
  · simpa using h'

theorem shape?_view (s : Schema ρ) (name : String) :
    (s.shape? name).map Shape.view = s.views.find? (·.1 == name) := by
  have hfind : (s.shapes.mergeSort fun a b => a.name ≤ b.name).find? (·.name == name) =
      s.shapes.find? (·.name == name) := by
    refine find?_mergeSort (text_le_trans Shape.name) (text_le_total Shape.name) ?_ s.shapes
    intro a b ha hb
    simp only [beq_iff_eq] at ha hb
    simp [ha, hb]
  rw [views, List.find?_map, shape?, ← hfind]
  rfl

theorem memberTy?_view (s : Schema ρ) (owner : String) (kind : MemberKind) (name : String) :
    s.memberTy? owner kind name = (((s.shape? owner).map Shape.view).bind fun v =>
      v.2.find? fun m => m.2.1 == kind && m.1 == name).map (·.2.2) := by
  cases hs : s.shape? owner with
  | none => simp [memberTy?, hs]
  | some shape =>
    simp only [memberTy?, hs, Option.bind_some, Option.map_some, Shape.view, List.find?_map,
      Option.map_map, Shape.member?]
    rfl

end Schema

namespace Function

def view (f : Function ρ) : String × Nat × FlaggedTy := (f.name, f.arity, f.returns)

def isSized (f : Function ρ) : Bool :=
  isSizedText f.name && f.arity < 2 ^ 64 && isSizedTy f.returns.ty

end Function

namespace Functions

theorem delimited_packed : Delimited (packed (ρ := ρ)) Function.view fun f => f.isSized := by
  intro a b ha hb r r' heq
  simp only [Function.isSized, Bool.and_eq_true, decide_eq_true_eq] at ha hb
  simp only [packed, List.append_assoc] at heq
  obtain ⟨hname, heq⟩ := delimited_string _ _ ha.1.1 hb.1.1 _ _ heq
  obtain ⟨harity, heq⟩ := delimited_word _ _ ha.1.2 hb.1.2 _ _ heq
  obtain ⟨hreturns, heq⟩ := delimited_flaggedTy _ _ ha.2 hb.2 _ _ heq
  refine ⟨?_, heq⟩
  simp_all [Function.view]

def isSized (fs : Functions ρ) : Bool := fs.all.length < 2 ^ 64 && fs.all.all Function.isSized

def sorted (fs : Functions ρ) : List (Function ρ) :=
  fs.all.mergeSort fun a b => a.name < b.name || (a.name == b.name && a.arity ≤ b.arity)

def views (fs : Functions ρ) : List (String × Nat × FlaggedTy) := fs.sorted.map Function.view

theorem views_eq {fs fs' : Functions ρ} (h : fs.isSized) (h' : fs'.isSized)
    (heq : fs.material = fs'.material) : fs.views = fs'.views := by
  simp only [isSized, Bool.and_eq_true, decide_eq_true_eq, List.all_eq_true] at h h'
  refine (delimited_packed.list fs.sorted fs'.sorted ?_ ?_ [] [] ?_).1
  · simpa [sorted] using h
  · simpa [sorted] using h'
  · simpa [material, sorted] using heq

theorem lookup?_view (fs : Functions ρ) (name : String) (arity : Nat) :
    (fs.lookup? name arity).map (·.returns) =
      (fs.views.find? fun v => v.1 == name && v.2.1 == arity).map (·.2.2) := by
  have hfind : fs.sorted.find? (fun f => f.name == name && f.arity == arity) =
      fs.all.find? fun f => f.name == name && f.arity == arity := by
    refine find?_mergeSort (pair_le_trans Function.name Function.arity)
      (pair_le_total Function.name Function.arity) ?_ fs.all
    intro a b ha hb
    simp only [Bool.and_eq_true, beq_iff_eq] at ha hb
    simp [ha, hb]
  rw [views, List.find?_map, lookup?, ← hfind, Option.map_map]
  rfl

theorem arities_view (fs : Functions ρ) (name : String) :
    fs.arities name =
      ((fs.views.filter (·.1 == name)).map (·.2.1)).mergeSort (· ≤ ·) := by
  have hperm : fs.sorted.Perm fs.all := List.mergeSort_perm fs.all _
  have hviews : (fs.views.filter (·.1 == name)).map (·.2.1) =
      (fs.sorted.filter (·.name == name)).map (·.arity) := by
    rw [views, List.filter_map, List.map_map]
    rfl
  rw [hviews, arities]
  refine mergeSort_eq_of_perm ?_ ?_ ?_ ((hperm.symm.filter _).map _)
  · intro a b c
    simp only [decide_eq_true_eq]
    exact Nat.le_trans
  · intro a b
    simpa using Nat.le_total a b
  · intro a _ b _
    simp only [decide_eq_true_eq]
    exact Nat.le_antisymm

end Functions

/-- Schemas and functions with equal bytes agree. -/
theorem Agree.of_material {schema schema' : Schema ρ} {functions functions' : Functions ρ}
    (hs : schema.isSized) (hs' : schema'.isSized) (hf : functions.isSized)
    (hf' : functions'.isSized) (hschema : schema.material = schema'.material)
    (hfunctions : functions.material = functions'.material) :
    Agree schema functions schema' functions' := by
  have hshape : ∀ name, (schema.shape? name).map Shape.view =
      (schema'.shape? name).map Shape.view := by
    intro name
    rw [Schema.shape?_view, Schema.shape?_view, Schema.views_eq hs hs' hschema]
  have hviews := Functions.views_eq hf hf' hfunctions
  constructor
  case shapes =>
    intro name
    have := congrArg Option.isSome (hshape name)
    simpa using this
  case members =>
    intro owner kind name
    rw [Schema.memberTy?_view, Schema.memberTy?_view, hshape]
  case arities =>
    intro name
    rw [Functions.arities_view, Functions.arities_view, hviews]
  case returns =>
    intro name arity
    rw [Functions.lookup?_view, Functions.lookup?_view, hviews]

end PathTemplate
