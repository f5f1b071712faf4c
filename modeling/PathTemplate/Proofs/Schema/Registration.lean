import Mathlib.Data.List.Induction
import PathTemplate.Proofs.Compiler.Fingerprint
import PathTemplate.Proofs.Schema.Tables

/-!
Histories of registrations, in which calls may fail. Main statement: the two tables of record types
stay inverse to each other, members are found where they are declared, a failed call changes
nothing, and what is hashed depends on what was registered, not on the order.
-/

namespace PathTemplate

variable {ρ : Type}

/-- No type has two descriptions. -/
def OneEach (types : List (Shape ρ)) : Prop := ∀ t ∈ types, ∀ u ∈ types, t.id = u.id → t = u

theorem OneEach.of_subset {types types' : List (Shape ρ)} (h : OneEach types)
    (hsub : types' ⊆ types) : OneEach types' :=
  fun t ht u hu => h t (hsub ht) u (hsub hu)

namespace Schema

/-- The schema after a call, which changes nothing when it fails. -/
def call (s : Schema ρ) (t : Shape ρ) : Schema ρ :=
  match s.register t with
  | .ok s' => s'
  | .error _ => s

def after (history : List (Shape ρ)) : Schema ρ := history.foldl call empty

theorem call_eq (s : Schema ρ) (t : Shape ρ) : s.call t =
    if s.shape? t.name = none ∧ Shape.duplicate? [] t.members = none then ⟨s.shapes ++ [t]⟩
    else s := by
  rw [call, register]
  cases s.shape? t.name with
  | some existing =>
    by_cases hid : existing.id = t.id <;> simp [hid]
  | none =>
    cases Shape.duplicate? [] t.members <;> simp

theorem subset_call (s : Schema ρ) (t : Shape ρ) : s.shapes ⊆ (s.call t).shapes := by
  rw [call_eq]
  split <;> simp

theorem call_subset (s : Schema ρ) (t : Shape ρ) : (s.call t).shapes ⊆ t :: s.shapes := by
  rw [call_eq]
  split <;> simp

theorem after_concat (history : List (Shape ρ)) (t : Shape ρ) :
    after (history ++ [t]) = (after history).call t := by
  simp [after]

theorem mem_after_concat {history : List (Shape ρ)} {t u : Shape ρ}
    (h : u ∈ (after (history ++ [t])).shapes) : u = t ∨ u ∈ (after history).shapes := by
  rw [after_concat] at h
  exact List.mem_cons.mp (call_subset _ t h)

theorem after_subset (history : List (Shape ρ)) : (after history).shapes ⊆ history := by
  induction history using List.reverseRecOn with
  | nil => simp [after, empty]
  | append_singleton history t ih =>
    intro u hu
    rcases mem_after_concat hu with rfl | hu
    · simp
    · exact List.mem_append_left _ (ih hu)

theorem subset_after_append (history more : List (Shape ρ)) :
    (after history).shapes ⊆ (after (history ++ more)).shapes := by
  induction more using List.reverseRecOn with
  | nil => simp
  | append_singleton more t ih =>
    rw [← List.append_assoc, after_concat]
    exact List.Subset.trans ih (subset_call _ t)

theorem mem_after_iff {history : List (Shape ρ)} {t : Shape ρ} : t ∈ (after history).shapes ↔
    ∃ before later, history = before ++ t :: later ∧ t ∈ (after (before ++ [t])).shapes := by
  constructor
  · induction history using List.reverseRecOn with
    | nil => simp [after, empty]
    | append_singleton history u ih =>
      intro h
      rcases mem_after_concat h with rfl | hmem
      · exact ⟨history, [], rfl, h⟩
      · obtain ⟨before, later, rfl, hin⟩ := ih hmem
        exact ⟨before, later ++ [u], by simp, hin⟩
  · rintro ⟨before, later, rfl, h⟩
    simpa using subset_after_append (before ++ [t]) later h

theorem material_eq {s s' : Schema ρ} (h : (s.shapes.map Shape.name).Nodup)
    (h' : (s'.shapes.map Shape.name).Nodup) (hmem : ∀ t, t ∈ s.shapes ↔ t ∈ s'.shapes) :
    s.material = s'.material := by
  have hperm := (List.perm_ext_iff_of_nodup h.of_map h'.of_map).mpr hmem
  rw [material, material, mergeSort_eq_of_perm (text_le_trans Shape.name) (text_le_total Shape.name)
    ?_ hperm]
  intro t ht u hu
  simp only [decide_eq_true_eq]
  intro htu hut
  exact List.inj_on_of_nodup_map h ht hu (String.le_antisymm htu hut)

end Schema

namespace Registry

/-- The tables give what a schema gives. -/
structure Shows (r : Registry ρ) (s : Schema ρ) : Prop where
  names : (s.shapes.map Shape.name).Nodup
  byName : ∀ name, r.byName[name]?.map Indexed.shape = s.shape? name
  byType : ∀ id name, r.byType[id]? = some name ↔ ∃ t ∈ s.shapes, t.id = id ∧ t.name = name
  good : ∀ (name : String) (x : Indexed ρ), r.byName[name]? = some x → x.Good

variable {r : Registry ρ} {s : Schema ρ} {t u : Shape ρ} {x : Indexed ρ}

theorem shows_empty : (empty : Registry ρ).Shows Schema.empty := by
  constructor <;> simp [empty, Schema.empty, Schema.shape?]

theorem Shows.shape?_eq_some_iff (h : r.Shows s) {name : String} :
    s.shape? name = some t ↔ t ∈ s.shapes ∧ t.name = name :=
  find?_eq_some_iff_of_nodup h.names

theorem Shows.shape?_eq_none_iff {name : String} :
    s.shape? name = none ↔ name ∉ s.shapes.map Shape.name := by
  simp [Schema.shape?]

theorem Shows.byName_iff (h : r.Shows s) {name : String} :
    (∃ x, r.byName[name]? = some x ∧ x.shape = t) ↔ t ∈ s.shapes ∧ t.name = name := by
  rw [← h.shape?_eq_some_iff, ← h.byName, Option.map_eq_some_iff]

theorem Shows.insert (h : r.Shows s) (hone : OneEach (t :: s.shapes))
    (hfree : s.shape? t.name = none) (hx : x.shape = t) (hgood : x.Good) :
    Shows ⟨r.byName.insert t.name x, r.byType.insert t.id t.name⟩ ⟨s.shapes ++ [t]⟩ := by
  constructor
  case names =>
    rw [List.map_append, List.nodup_append]
    refine ⟨h.names, List.nodup_singleton _, ?_⟩
    rintro name hname other hother rfl
    obtain rfl := List.mem_singleton.mp hother
    exact Shows.shape?_eq_none_iff.mp hfree hname
  case byName =>
    intro name
    rw [Std.HashMap.getElem?_insert, Schema.shape?, List.find?_append]
    by_cases hname : t.name = name
    · subst hname
      rw [if_pos BEq.rfl, ← Schema.shape?, hfree]
      simp [hx]
    · rw [if_neg (by simpa using hname), h.byName, Schema.shape?]
      simp [hname]
  case byType =>
    intro id name
    rw [Std.HashMap.getElem?_insert]
    by_cases hid : t.id = id
    · subst hid
      rw [if_pos BEq.rfl]
      constructor
      · rintro heq
        exact ⟨t, by simp, rfl, Option.some.inj heq⟩
      · rintro ⟨u, hu, hid, rfl⟩
        have hu : u ∈ t :: s.shapes := by
          simpa [or_comm] using hu
        rw [hone u hu t List.mem_cons_self hid]
    · rw [if_neg (by simpa using hid), h.byType]
      simp [hid]
  case good =>
    intro name y hy
    rw [Std.HashMap.getElem?_insert] at hy
    split at hy
    · cases hy
      exact hgood
    · exact h.good name y hy

theorem Shows.called (h : r.Shows s) (hone : OneEach (t :: s.shapes)) :
    ((register t).run.run r).1 = (s.register t).map (fun _ => ()) ∧
      (((register t).run.run r).1 = .ok () ↔ t ∈ (s.call t).shapes) ∧
      ((register t).run.run r).2.Shows (s.call t) := by
  have hshape := h.byName t.name
  have hcalled := register_registered t r
  generalize (register t).run.run r = out at hcalled ⊢
  cases hcalled with
  | again hx hid =>
    rw [hx] at hshape
    have hcall : s.call t = s := by
      rw [Schema.call_eq, ← hshape]
      simp
    obtain ⟨hmem, -⟩ := h.shape?_eq_some_iff.mp hshape.symm
    refine ⟨by simp [Schema.register, ← hshape, hid, Except.map], ?_⟩
    rw [hcall, ← hone _ (List.mem_cons_of_mem _ hmem) t List.mem_cons_self hid]
    exact ⟨iff_of_true rfl hmem, h⟩
  | taken hx hid =>
    rw [hx] at hshape
    have hcall : s.call t = s := by
      rw [Schema.call_eq, ← hshape]
      simp
    refine ⟨by simp [Schema.register, ← hshape, hid, Except.map], ?_⟩
    rw [hcall]
    refine ⟨iff_of_false nofun fun hmem => hid ?_, h⟩
    have hfind := h.shape?_eq_some_iff.mpr ⟨hmem, rfl⟩
    rw [← hshape] at hfind
    exact congrArg Shape.id (Option.some.inj hfind)
  | clashing hx hindex =>
    rw [hx] at hshape
    rcases t.index_cases with ⟨m, hm, herr⟩ | ⟨x, -, hok, -⟩
    · rw [hindex] at herr
      cases herr
      have hcall : s.call t = s := by
        rw [Schema.call_eq, hm]
        simp
      refine ⟨by simp [Schema.register, ← hshape, hm, Except.map], ?_⟩
      rw [hcall]
      refine ⟨iff_of_false nofun fun hmem => ?_, h⟩
      have hfind := h.shape?_eq_some_iff.mpr ⟨hmem, rfl⟩
      rw [← hshape] at hfind
      cases hfind
    · rw [hindex] at hok
      cases hok
  | added hx hindex =>
    rw [hx] at hshape
    rcases t.index_cases with ⟨m, hm, herr⟩ | ⟨x', hm, hok, hshows, hgood⟩
    · rw [hindex] at herr
      cases herr
    · rw [hindex] at hok
      cases hok
      have hcall : s.call t = ⟨s.shapes ++ [t]⟩ := by
        rw [Schema.call_eq, ← hshape, hm]
        simp
      refine ⟨by simp [Schema.register, ← hshape, hm, Except.map], ?_⟩
      rw [hcall]
      exact ⟨iff_of_true rfl (by simp), h.insert hone hshape.symm hshows hgood⟩

theorem register_error {t : Shape ρ} {r r' : Registry ρ} {e : SchemaError}
    (h : (register t).run.run r = (.error e, r')) : r' = r := by
  have hcalled := register_registered t r
  rw [h] at hcalled
  cases hcalled <;> rfl

theorem after_concat (history : List (Shape ρ)) (t : Shape ρ) :
    after (history ++ [t]) = ((register t).run.run (after history)).2 := by
  simp [after]

theorem Shows.concat {history : List (Shape ρ)} {t : Shape ρ}
    (h : (after history).Shows (Schema.after history)) (hone : OneEach (history ++ [t])) :
    (((register t).run.run (after history)).1 = .ok () ↔
        t ∈ (Schema.after (history ++ [t])).shapes) ∧
      (after (history ++ [t])).Shows (Schema.after (history ++ [t])) := by
  rw [after_concat, Schema.after_concat]
  refine (h.called (hone.of_subset (List.cons_subset.mpr ⟨by simp, ?_⟩))).2
  exact List.Subset.trans (Schema.after_subset history) (List.subset_append_left _ _)

theorem after_shows {history : List (Shape ρ)} (hone : OneEach history) :
    (after history).Shows (Schema.after history) := by
  induction history using List.reverseRecOn with
  | nil => exact shows_empty
  | append_singleton history t ih =>
    exact ((ih (hone.of_subset (List.subset_append_left _ _))).concat hone).2

/-- A call for the type was made and did not fail. -/
def Accepted (history : List (Shape ρ)) (t : Shape ρ) : Prop :=
  ∃ before later, history = before ++ t :: later ∧
    ((register t).run.run (after before)).1 = .ok ()

theorem accepted_iff {history : List (Shape ρ)} (hone : OneEach history) {t : Shape ρ} :
    Accepted history t ↔ t ∈ (Schema.after history).shapes := by
  rw [Accepted, Schema.mem_after_iff]
  refine exists_congr fun before => exists_congr fun later => and_congr_right ?_
  rintro rfl
  have hone : OneEach (before ++ [t]) := hone.of_subset (by simp)
  exact ((after_shows (hone.of_subset (List.subset_append_left _ _))).concat hone).1

theorem registerAll_cons_ok {t : Shape ρ} {more : List (Shape ρ)} {r r' : Registry ρ} :
    (registerAll (t :: more)).run.run r = (.ok (), r') ↔
      ((register t).run.run r).1 = .ok () ∧
      (registerAll more).run.run ((register t).run.run r).2 = (.ok (), r') := by
  have hbind : (registerAll (t :: more)).run.run r =
      ExceptT.bindCont (fun _ => registerAll more) ((register t).run.run r).1
        ((register t).run.run r).2 := rfl
  rw [hbind]
  rcases (register t).run.run r with ⟨e | _, r₁⟩
  · exact iff_of_false nofun fun h => nomatch h.1
  · exact (and_iff_right rfl).symm

theorem registerAll_ok {before more : List (Shape ρ)} {r : Registry ρ}
    (hone : OneEach (before ++ more))
    (h : (registerAll more).run.run (after before) = (.ok (), r)) :
    r = after (before ++ more) ∧ more ⊆ (Schema.after (before ++ more)).shapes := by
  induction more generalizing before with
  | nil =>
    cases h
    simp
  | cons t more ih =>
    have hfirst : OneEach (before ++ [t]) := hone.of_subset (by simp)
    have hshows := after_shows (hfirst.of_subset (List.subset_append_left _ _))
    obtain ⟨hok, hrest⟩ := registerAll_cons_ok.mp h
    rw [← after_concat] at hrest
    rw [List.append_cons] at hone ⊢
    obtain ⟨hr, hmore⟩ := ih hone hrest
    refine ⟨hr, List.cons_subset.mpr ⟨?_, hmore⟩⟩
    exact Schema.subset_after_append _ more ((hshows.concat hfirst).1.mp hok)

theorem registerAll_shows {history : List (Shape ρ)} {r : Registry ρ} (hone : OneEach history)
    (h : (registerAll history).run.run empty = (.ok (), r)) :
    r.Shows (Schema.after history) ∧ ∀ t, t ∈ (Schema.after history).shapes ↔ t ∈ history := by
  have hhistory : OneEach ([] ++ history) := hone
  obtain ⟨rfl, hall⟩ := registerAll_ok hhistory h
  exact ⟨after_shows hone, fun t => ⟨fun ht => Schema.after_subset history ht, fun ht => hall ht⟩⟩

/-- What is hashed stands in the order of the names, in whatever order the table gives them. -/
theorem Shows.material_eq (h : r.Shows s) {names : List String}
    (hnames : names.Perm r.byName.keys) :
    r.material names = s.material := by
  have hkeys : r.byName.keys.Perm (s.shapes.map Shape.name) := by
    refine (List.perm_ext_iff_of_nodup Std.HashMap.nodup_keys h.names).mpr fun name => ?_
    rw [Std.HashMap.mem_keys, Std.HashMap.mem_iff_isSome_getElem?,
      ← Option.isSome_map (f := Indexed.shape), h.byName, Schema.shape?]
    simp
  have hsorted : (names.mergeSort fun a b => a ≤ b) =
      (s.shapes.mergeSort fun a b => a.name ≤ b.name).map Shape.name := by
    rw [List.map_mergeSort (s := fun a b : String => decide (a ≤ b)) fun _ _ _ _ => rfl]
    refine mergeSort_eq_of_perm (text_le_trans id) (text_le_total id) ?_ (hnames.trans hkeys)
    intro a _ b _
    simp only [decide_eq_true_eq]
    exact String.le_antisymm
  have hfound : ∀ t ∈ s.shapes.mergeSort fun a b => a.name ≤ b.name,
      r.byName[t.name]?.map Indexed.shape = some t := by
    intro t ht
    rw [h.byName, h.shape?_eq_some_iff]
    exact ⟨List.mem_mergeSort.mp ht, rfl⟩
  have hall := List.filterMap_congr (g := some) hfound
  rw [List.filterMap_some] at hall
  rw [material, Schema.material, hsorted, List.filterMap_map]
  exact congrArg (Packed.list Packed.shape) hall

/-- The two tables are inverse to each other, and a member is where its kind and name say. -/
structure Consistent (r : Registry ρ) : Prop where
  inverse : ∀ id name, r.byType[id]? = some name ↔
    ∃ x : Indexed ρ, r.byName[name]? = some x ∧ x.shape.id = id
  named : ∀ (name : String) (x : Indexed ρ), r.byName[name]? = some x → x.shape.name = name
  field : ∀ (name : String) (x : Indexed ρ), r.byName[name]? = some x → ∀ label m,
    x.field? label = some m ↔ m ∈ x.shape.members ∧ m.kind = .field ∧ m.name = label
  method : ∀ (name : String) (x : Indexed ρ), r.byName[name]? = some x → ∀ label m,
    x.method? label = some m ↔ m ∈ x.shape.members ∧ m.kind = .method ∧ m.name = label

theorem Shows.consistent (h : r.Shows s) : r.Consistent := by
  constructor
  case inverse =>
    intro id name
    rw [h.byType]
    constructor
    · rintro ⟨t, ht, rfl, hname⟩
      obtain ⟨x, hx, rfl⟩ := h.byName_iff.mpr ⟨ht, hname⟩
      exact ⟨x, hx, rfl⟩
    · rintro ⟨x, hx, rfl⟩
      obtain ⟨hmem, hname⟩ := h.byName_iff.mp ⟨x, hx, rfl⟩
      exact ⟨x.shape, hmem, rfl, hname⟩
  case named =>
    intro name x hx
    exact (h.byName_iff.mp ⟨x, hx, rfl⟩).2
  case field =>
    intro name x hx label m
    exact (h.good name x hx).member?_eq_some_iff
  case method =>
    intro name x hx label m
    exact (h.good name x hx).member?_eq_some_iff

theorem Shows.shapeOf?_eq_some_iff (h : r.Shows s) (hone : OneEach (t :: s.shapes)) :
    r.shapeOf? t.id = some x ↔ r.byName[t.name]? = some x ∧ x.shape = t := by
  rw [shapeOf?, Option.bind_eq_some_iff]
  constructor
  · rintro ⟨name, hname, hx⟩
    obtain ⟨u, hu, hid, rfl⟩ := (h.byType _ _).mp hname
    obtain rfl := hone u (List.mem_cons_of_mem _ hu) t List.mem_cons_self hid
    obtain ⟨y, hy, hyu⟩ := h.byName_iff.mpr ⟨hu, rfl⟩
    rw [hx] at hy
    cases hy
    exact ⟨hx, hyu⟩
  · rintro ⟨hx, rfl⟩
    obtain ⟨hmem, -⟩ := h.byName_iff.mp ⟨x, hx, rfl⟩
    exact ⟨x.shape.name, (h.byType _ _).mpr ⟨x.shape, hmem, rfl, rfl⟩, hx⟩

end Registry

namespace Functions

def key (f : Function ρ) : String × Nat := (f.name, f.arity)

theorem registerAll_ok {fs fs' : Functions ρ} {more : List (Function ρ)}
    (h : fs.registerAll more = .ok fs') (hfs : (fs.all.map key).Nodup) :
    fs'.all = fs.all ++ more ∧ (fs'.all.map key).Nodup := by
  induction more generalizing fs with
  | nil =>
    cases h
    simpa using hfs
  | cons f more ih =>
    rw [registerAll, List.foldlM_cons, register] at h
    cases hfind : fs.lookup? f.name f.arity with
    | some g =>
      rw [hfind] at h
      cases h
    | none =>
      rw [hfind] at h
      have hnew : key f ∉ fs.all.map key := by
        simpa [lookup?, key] using hfind
      have hkeys : ((fs.all ++ [f]).map key).Nodup := by
        rw [List.map_append, List.nodup_append]
        refine ⟨hfs, List.nodup_singleton _, ?_⟩
        rintro k hk other hother rfl
        exact hnew (List.mem_singleton.mp hother ▸ hk)
      obtain ⟨hall, hnodup⟩ := ih h hkeys
      exact ⟨by simpa using hall, hnodup⟩

theorem material_eq {fs fs' : Functions ρ} (h : (fs.all.map key).Nodup)
    (h' : (fs'.all.map key).Nodup)
    (hviews : ∀ v, v ∈ fs.all.map Function.view ↔ v ∈ fs'.all.map Function.view) :
    fs.material = fs'.material := by
  have hnodup : ∀ {fs : Functions ρ}, (fs.all.map key).Nodup →
      (fs.all.map Function.view).Nodup := by
    intro fs h
    refine List.Nodup.of_map (fun v => (v.1, v.2.1)) ?_
    rwa [List.map_map]
  have hperm := (List.perm_ext_iff_of_nodup (hnodup h) (hnodup h')).mpr hviews
  have hsorted : ∀ fs : Functions ρ, fs.views = (fs.all.map Function.view).mergeSort fun v w =>
      v.1 < w.1 || (v.1 == w.1 && v.2.1 ≤ w.2.1) := by
    intro fs
    exact List.map_mergeSort fun _ _ _ _ => rfl
  let arity (v : String × Nat × FlaggedTy) : Nat := v.2.1
  have heq : fs.views = fs'.views := by
    rw [hsorted, hsorted]
    refine mergeSort_eq_of_perm (pair_le_trans Prod.fst arity) (pair_le_total Prod.fst arity) ?_
      hperm
    intro v hv w hw hvw hwv
    obtain ⟨f, hf, rfl⟩ := List.mem_map.mp hv
    obtain ⟨g, hg, rfl⟩ := List.mem_map.mp hw
    obtain ⟨hname, harity⟩ := pair_le_antisymm Prod.fst arity _ _ hvw hwv
    rw [List.inj_on_of_nodup_map h hf hg (Prod.ext hname harity)]
  have hmaterial : ∀ fs : Functions ρ, fs.material = Packed.list (fun v =>
      Packed.string v.1 ++ Packed.word v.2.1 ++ Packed.flaggedTy v.2.2) fs.views := by
    intro fs
    rw [views, Packed.list, List.length_map, List.flatMap_map]
    rfl
  rw [hmaterial, hmaterial, heq]

end Functions

namespace Registry

/-- Whatever is called and whichever calls fail, the tables are inverse to each other and give what
the schema gives; a type is found under its own name exactly if a call for it has succeeded; and a
failed call changes nothing. What is hashed is that of the schema; it is the same after all
successful calls for the same types, and after those for the same signatures of functions, in whatever
order the tables give their entries. -/
theorem registrations_consistent {types : List (Shape ρ)} (hone : OneEach types) :
    (∀ history ⊆ types,
      (after history).Consistent ∧ (after history).Shows (Schema.after history) ∧
      ∀ t ∈ types,
        ((register t).run.run (after history)).1 =
          ((Schema.after history).register t).map (fun _ => ()) ∧
        (∀ x, (after history).shapeOf? t.id = some x ↔
          (after history).byName[t.name]? = some x ∧ x.shape = t) ∧
        (Accepted history t ↔ ∃ x, (after history).shapeOf? t.id = some x)) ∧
    (∀ (r r' : Registry ρ) (t : Shape ρ) (e : SchemaError),
      (register t).run.run r = (.error e, r') → r' = r) ∧
    (∀ history ⊆ types, ∀ history' ⊆ types, (∀ t, t ∈ history ↔ t ∈ history') →
      ∀ r r' : Registry ρ, (registerAll history).run.run empty = (.ok (), r) →
        (registerAll history').run.run empty = (.ok (), r') →
      ∀ names names', names.Perm r.byName.keys → names'.Perm r'.byName.keys →
        r.material names = (Schema.after history).material ∧
          r.material names = r'.material names') ∧
    (∀ calls calls' : List (Function ρ),
      (∀ signature, signature ∈ calls.map Function.view ↔ signature ∈ calls'.map Function.view) →
      ∀ fs fs' : Functions ρ, Functions.empty.registerAll calls = .ok fs →
        Functions.empty.registerAll calls' = .ok fs' →
      ∀ all all', all.Perm fs.all → all'.Perm fs'.all →
        Functions.material ⟨all⟩ = Functions.material ⟨all'⟩) := by
  refine ⟨?_, ?_, ?_, ?_⟩
  · intro history hsub
    have hshows := after_shows (hone.of_subset hsub)
    refine ⟨hshows.consistent, hshows, fun t ht => ?_⟩
    have hone' : OneEach (t :: (Schema.after history).shapes) := hone.of_subset
      (List.cons_subset.mpr ⟨ht, List.Subset.trans (Schema.after_subset history) hsub⟩)
    refine ⟨(hshows.called hone').1, fun x => hshows.shapeOf?_eq_some_iff hone', ?_⟩
    calc Accepted history t
      _ ↔ t ∈ (Schema.after history).shapes ∧ t.name = t.name := by
        rw [accepted_iff (hone.of_subset hsub), and_iff_left rfl]
      _ ↔ ∃ x, (after history).byName[t.name]? = some x ∧ x.shape = t := hshows.byName_iff.symm
      _ ↔ ∃ x, (after history).shapeOf? t.id = some x :=
        exists_congr fun x => (hshows.shapeOf?_eq_some_iff hone').symm
  · intro r r' t e
    exact register_error
  · intro history hsub history' hsub' hsame r r' hr hr' names names' hnames hnames'
    obtain ⟨hshows, hmem⟩ := registerAll_shows (hone.of_subset hsub) hr
    obtain ⟨hshows', hmem'⟩ := registerAll_shows (hone.of_subset hsub') hr'
    rw [hshows.material_eq hnames, hshows'.material_eq hnames']
    refine ⟨rfl, Schema.material_eq hshows.names hshows'.names fun t => ?_⟩
    rw [hmem, hmem', hsame]
  · intro calls calls' hsame fs fs' hfs hfs' all all' hall hall'
    obtain ⟨hcalls, hnodup⟩ := Functions.registerAll_ok hfs List.nodup_nil
    obtain ⟨hcalls', hnodup'⟩ := Functions.registerAll_ok hfs' List.nodup_nil
    refine Functions.material_eq ((hall.map _).nodup_iff.mpr hnodup)
      ((hall'.map _).nodup_iff.mpr hnodup') fun signature => ?_
    rw [(hall.map _).mem_iff, (hall'.map _).mem_iff, hcalls, hcalls']
    exact hsame signature

/-- A type whose name is taken is refused, and so is one that declares a field twice. -/
theorem registrations_consistent_clash :
    let id (kind : MemberKind) : Member Unit := ⟨"id", kind, ⟨.long, false, false⟩, fun _ => .null⟩
    let user : Shape Unit := ⟨"a::User", "User", [id .field, id .method]⟩
    let other : Shape Unit := ⟨"b::User", "User", []⟩
    let broken : Shape Unit := ⟨"a::Role", "Role", [id .field, id .field]⟩
    let history := [broken, user, other, user]
    OneEach history ∧ (∃ x, (after history).shapeOf? user.id = some x ∧ x.shape = user) ∧
      (∀ x, (after history).shapeOf? other.id ≠ some x) ∧
      ∀ x, (after history).shapeOf? broken.id ≠ some x := by
  intro id user other broken history
  have hone : OneEach history := by
    simp [OneEach, history, user, other, broken]
  obtain ⟨-, -, htypes⟩ := (registrations_consistent hone).1 history (List.Subset.refl _)
  have hshapes : (Schema.after history).shapes = [user] := rfl
  have hfound : ∀ t ∈ history, t ∈ [user] ↔ ∃ x, (after history).shapeOf? t.id = some x := by
    intro t ht
    rw [← hshapes, ← accepted_iff hone]
    exact (htypes t ht).2.2
  refine ⟨hone, ?_, fun x hx => ?_, fun x hx => ?_⟩
  · obtain ⟨x, hx⟩ := (hfound user (by simp [history])).mp (by simp)
    exact ⟨x, hx, (((htypes user (by simp [history])).2.1 x).mp hx).2⟩
  · have := (hfound other (by simp [history])).mpr ⟨x, hx⟩
    simp [other, user] at this
  · have := (hfound broken (by simp [history])).mpr ⟨x, hx⟩
    simp [broken, user] at this

end Registry

end PathTemplate
