import PathTemplate.Proofs.Program.Trace
import PathTemplate.Proofs.Routine.Names

/-!
Routines in single-assignment form. The generator hands out temporaries and sinks in the order in
which statements are written down, so that each of them is made by one statement; a statement only
looks at the temporary of its context, which a statement before it has made on the way there.
-/

namespace PathTemplate

open PathTemplate.Routine

variable {ρ σ : Type}

namespace Stmt

def dst? : Stmt → Option Nat
  | .load dst .. | .math dst .. | .cast dst .. | .call dst .. => some dst
  | _ => none

def reads : Stmt → List Nat
  | .load _ src _ | .math _ src .. | .cast _ src _ => [src]
  | .ifPresent _ value .. | .emit value _ => [value]
  | _ => []

def sink? : Stmt → Option Nat
  | .capture sink .. | .firstNonEmpty sink .. => some sink
  | _ => none

def parent? : Stmt → Option Nat
  | .capture _ parent _ | .firstNonEmpty _ parent .. => some parent
  | _ => none

mutual

/-- The statement and all inside it, each with the sink of the innermost statement around it that
makes one. What is written when all alternatives are empty stands outside of their sink. -/
def inside (sink : Nat) : Stmt → List (Nat × Stmt)
  | .ifPresent g v t o => (sink, .ifPresent g v t o) :: (insideAll sink t ++ insideAll sink o)
  | .capture s p b => (sink, .capture s p b) :: insideAll s b
  | .firstNonEmpty s p a o =>
    (sink, .firstNonEmpty s p a o) :: (insideEach s a ++ insideAll sink o)
  | .text s => [(sink, .text s)]
  | .load d s a => [(sink, .load d s a)]
  | .math d s op n t => [(sink, .math d s op n t)]
  | .cast d s t => [(sink, .cast d s t)]
  | .call d f a => [(sink, .call d f a)]
  | .emit v c => [(sink, .emit v c)]
  | .emitDefault f => [(sink, .emitDefault f)]
  | .missing n => [(sink, .missing n)]

def insideAll (sink : Nat) : List Stmt → List (Nat × Stmt)
  | [] => []
  | s :: ss => inside sink s ++ insideAll sink ss

def insideEach (sink : Nat) : List (List Stmt) → List (Nat × Stmt)
  | [] => []
  | b :: bs => insideAll sink b ++ insideEach sink bs

end

mutual

theorem map_inside (sink : Nat) : (s : Stmt) → (inside sink s).map (·.2) = walk s
  | .ifPresent g v t o => by simp [inside, walk, map_insideAll]
  | .capture s p b => by simp [inside, walk, map_insideAll]
  | .firstNonEmpty s p a o => by simp [inside, walk, map_insideAll, map_insideEach]
  | .text _ | .load .. | .math .. | .cast .. | .call .. | .emit .. | .emitDefault _
  | .missing _ => rfl

theorem map_insideAll (sink : Nat) : (ss : List Stmt) → (insideAll sink ss).map (·.2) = walkAll ss
  | [] => rfl
  | s :: ss => by simp [insideAll, walkAll, map_inside, map_insideAll]

theorem map_insideEach (sink : Nat) :
    (bs : List (List Stmt)) → (insideEach sink bs).map (·.2) = walkEach bs
  | [] => rfl
  | b :: bs => by simp [insideEach, walkEach, map_insideAll, map_insideEach]

end

theorem walkAll_append (a b : List Stmt) : walkAll (a ++ b) = walkAll a ++ walkAll b := by
  induction a with
  | nil => rfl
  | cons s ss ih => simp [walkAll, ih]

theorem insideAll_append (sink : Nat) (a b : List Stmt) :
    insideAll sink (a ++ b) = insideAll sink a ++ insideAll sink b := by
  induction a with
  | nil => rfl
  | cons s ss ih => simp [insideAll, ih]

end Stmt

/-- The numbers from the first on, up to but not including the second, in order. -/
structure Counts (first last : Nat) (l : List Nat) : Prop where
  le : first ≤ last
  eq : l = List.range' first (last - first)

namespace Counts

variable {a b c : Nat} {l l' : List Nat}

theorem nil : Counts a a [] := ⟨Nat.le_refl a, by simp⟩

theorem append (h : Counts a b l) (h' : Counts b c l') : Counts a c (l ++ l') := by
  have hle := h.le
  have hle' := h'.le
  refine ⟨Nat.le_trans hle hle', ?_⟩
  rw [h.eq, h'.eq, show c - a = (b - a) + (c - b) by omega, ← List.range'_append_1]
  rw [show a + (b - a) = b by omega]

theorem cons (h : Counts (a + 1) b l) : Counts a b (a :: l) := by
  have hle := h.le
  refine ⟨by omega, ?_⟩
  rw [h.eq, show b - a = (b - (a + 1)) + 1 by omega, List.range'_succ]

theorem nodup (h : Counts a b l) : l.Nodup := h.eq ▸ List.nodup_range'

theorem mem_iff (h : Counts a b l) {n : Nat} : n ∈ l ↔ a ≤ n ∧ n < b := by
  have hle := h.le
  rw [h.eq, List.mem_range'_1]
  omega

end Counts

namespace Routine

/-- The temporaries and the sinks that statements make are the next ones of a supply. -/
structure Numbered (s s' : Supply) (stmts : List Stmt) : Prop where
  temps : Counts s.next s'.next (stmts.filterMap Stmt.dst?)
  sinks : Counts (s.sinks + 1) (s'.sinks + 1) (stmts.filterMap Stmt.sink?)

namespace Numbered

variable {s s' s'' : Supply} {stmts more : List Stmt} {st : Stmt}

theorem nil : Numbered s s [] := ⟨.nil, .nil⟩

theorem append (h : Numbered s s' stmts) (h' : Numbered s' s'' more) :
    Numbered s s'' (stmts ++ more) := by
  refine ⟨?_, ?_⟩
  · rw [List.filterMap_append]
    exact h.temps.append h'.temps
  · rw [List.filterMap_append]
    exact h.sinks.append h'.sinks

theorem plain (hd : st.dst? = none) (hs : st.sink? = none) (h : Numbered s s' stmts) :
    Numbered s s' (st :: stmts) := by
  refine ⟨?_, ?_⟩
  · rw [List.filterMap_cons_none hd]
    exact h.temps
  · rw [List.filterMap_cons_none hs]
    exact h.sinks

theorem temp {k : TempKind} (hd : st.dst? = some s.next) (hs : st.sink? = none)
    (h : Numbered (s.temp k).2 s' stmts) : Numbered s s' (st :: stmts) := by
  refine ⟨?_, ?_⟩
  · rw [List.filterMap_cons_some hd]
    exact h.temps.cons
  · rw [List.filterMap_cons_none hs]
    exact h.sinks

theorem sink (hd : st.dst? = none) (hs : st.sink? = some s.sink.1)
    (h : Numbered s.sink.2 s' stmts) : Numbered s s' (st :: stmts) := by
  refine ⟨?_, ?_⟩
  · rw [List.filterMap_cons_none hd]
    exact h.temps
  · rw [List.filterMap_cons_some hs]
    exact h.sinks.cons

end Numbered

theorem dst_of_computing {dst src : Nat} {ty : Ty} {kind : Tree.NodeKind} {temp : TempKind}
    {st : Stmt} (h : computing? dst src ty kind = some (temp, st)) :
    st.dst? = some dst ∧ st.sink? = none ∧ st.parent? = none ∧ (∀ t ∈ st.reads, t = src) ∧
      st.walk = [st] ∧ ∀ sink, st.inside sink = [(sink, st)] := by
  cases kind <;> simp only [computing?, Option.some.injEq, Prod.mk.injEq, reduceCtorEq] at h
  all_goals
    obtain ⟨rfl, rfl⟩ := h
    simp [Stmt.dst?, Stmt.sink?, Stmt.parent?, Stmt.reads, Stmt.walk, Stmt.inside]

mutual

theorem Generates.numbered {cx : Context} {n : Tree.Node} {s s' : Supply} {stmts : List Stmt} :
    Generates cx n s stmts s' → Numbered s s' (Stmt.walkAll stmts)
  | .literal | .print | .default => .plain rfl rfl .nil
  | .compute computes below => by
    obtain ⟨hd, hs, -, -, hw, -⟩ := dst_of_computing computes
    rw [Stmt.walkAll, hw]
    exact .temp hd hs below.numbered
  | .guard _ below aside => by
    simp only [Stmt.walkAll, Stmt.walk, List.append_nil]
    exact .plain rfl rfl (below.numbered.append aside.numbered)
  | .orFallback below aside => by
    simp only [Stmt.walkAll, Stmt.walk, List.append_nil]
    exact .sink rfl rfl (below.numbered.append aside.numbered)
  | .concatenation below => by
    simp only [Stmt.walkAll, Stmt.walk, List.append_nil]
    exact .sink rfl rfl below.numbered
  | .notFound below => .plain rfl rfl below.numbered
  | .root below => below.numbered

theorem GeneratesAll.numbered {cx : Context} {ns : List Tree.Node} {s s' : Supply}
    {stmts : List Stmt} : GeneratesAll cx ns s stmts s' → Numbered s s' (Stmt.walkAll stmts)
  | .nil => .nil
  | .cons first rest => by
    rw [Stmt.walkAll_append]
    exact first.numbered.append rest.numbered

theorem GeneratesEach.numbered {cx : Context} {ns : List Tree.Node} {s s' : Supply}
    {bodies : List (List Stmt)} :
    GeneratesEach cx ns s bodies s' → Numbered s s' (Stmt.walkEach bodies)
  | .nil => .nil
  | .concatenation first rest => first.numbered.append rest.numbered
  | .other first rest => first.numbered.append rest.numbered

end

/-- Each statement that makes a sink puts it into the sink around it. -/
def Nested (l : List (Nat × Stmt)) : Prop :=
  ∀ p ∈ l, ∀ parent, p.2.parent? = some parent → parent = p.1

theorem Nested.cons {sink : Nat} {st : Stmt} {l : List (Nat × Stmt)}
    (hst : st.parent? = none ∨ st.parent? = some sink) (h : Nested l) :
    Nested ((sink, st) :: l) := by
  refine List.forall_mem_cons.mpr ⟨fun parent hparent => ?_, h⟩
  rcases hst with hst | hst
  · rw [hst] at hparent
    cases hparent
  · rw [hst] at hparent
    exact (Option.some.inj hparent).symm

theorem Nested.append {l l' : List (Nat × Stmt)} (h : Nested l) (h' : Nested l') :
    Nested (l ++ l') :=
  List.forall_mem_append.mpr ⟨h, h'⟩

theorem Nested.nil : Nested [] := by simp [Nested]

mutual

theorem Generates.nested {cx : Context} {n : Tree.Node} {s s' : Supply} {stmts : List Stmt} :
    Generates cx n s stmts s' → Nested (Stmt.insideAll cx.sink stmts)
  | .literal | .print | .default => .cons (.inl rfl) .nil
  | .compute computes below => by
    obtain ⟨-, -, hp, -, -, hi⟩ := dst_of_computing computes
    rw [Stmt.insideAll, hi]
    exact .cons (.inl hp) below.nested
  | .guard _ below aside => by
    simp only [Stmt.insideAll, Stmt.inside, List.append_nil]
    exact .cons (.inl rfl) (below.nested.append aside.nested)
  | .orFallback below aside => by
    simp only [Stmt.insideAll, Stmt.inside, List.append_nil]
    exact .cons (.inr rfl) (below.nested.append aside.nested)
  | .concatenation below => by
    simp only [Stmt.insideAll, Stmt.inside, List.append_nil]
    exact .cons (.inr rfl) below.nested
  | .notFound below => .cons (.inl rfl) below.nested
  | .root below => below.nested

theorem GeneratesAll.nested {cx : Context} {ns : List Tree.Node} {s s' : Supply}
    {stmts : List Stmt} :
    GeneratesAll cx ns s stmts s' → Nested (Stmt.insideAll cx.sink stmts)
  | .nil => .nil
  | .cons first rest => by
    rw [Stmt.insideAll_append]
    exact first.nested.append rest.nested

theorem GeneratesEach.nested {cx : Context} {ns : List Tree.Node} {s s' : Supply}
    {bodies : List (List Stmt)} :
    GeneratesEach cx ns s bodies s' → Nested (Stmt.insideEach cx.sink bodies)
  | .nil => .nil
  | .concatenation first rest => first.nested.append rest.nested
  | .other first rest => first.nested.append rest.nested

end

/-- Every temporary that a statement of the list looks at is known from the start, or made by a
statement before it. -/
def Defined (known : List Nat) : List Stmt → Prop
  | [] => True
  | st :: rest => (∀ t ∈ st.reads, t ∈ known) ∧ Defined (st.dst?.toList ++ known) rest

namespace Defined

variable {known : List Nat} {l l' : List Stmt} {st : Stmt}

theorem mono {known' : List Nat} (h : Defined known l) (hk : known ⊆ known') :
    Defined known' l := by
  induction l generalizing known known' with
  | nil => trivial
  | cons st rest ih =>
    exact ⟨fun t ht => hk (h.1 t ht),
      ih h.2 (List.append_subset.mpr
        ⟨List.subset_append_left _ _, fun t ht => List.mem_append_right _ (hk ht)⟩)⟩

theorem append (h : Defined known l) (h' : Defined known l') : Defined known (l ++ l') := by
  induction l generalizing known with
  | nil => exact h'
  | cons st rest ih =>
    exact ⟨h.1, ih h.2 (h'.mono (List.subset_append_right _ _))⟩

theorem cons (hst : ∀ t ∈ st.reads, t ∈ known) (h : Defined known l) : Defined known (st :: l) :=
  ⟨hst, h.mono (List.subset_append_right _ _)⟩

theorem make {t : Nat} (hst : ∀ t ∈ st.reads, t ∈ known) (hd : st.dst? = some t)
    (h : Defined [t] l) : Defined known (st :: l) := by
  refine ⟨hst, h.mono ?_⟩
  rw [hd]
  exact List.subset_append_left _ _

theorem made_before {before after : List Stmt} (h : Defined known (before ++ st :: after)) {t : Nat}
    (ht : t ∈ st.reads) : t ∈ known ∨ ∃ d ∈ before, d.dst? = some t := by
  induction before generalizing known with
  | nil => exact .inl (h.1 t ht)
  | cons first rest ih =>
    rcases ih h.2 with hk | ⟨d, hd, hdst⟩
    · rcases List.mem_append.mp hk with hk | hk
      · exact .inr ⟨first, List.mem_cons_self, by simpa using hk⟩
      · exact .inl hk
    · exact .inr ⟨d, List.mem_cons_of_mem _ hd, hdst⟩

end Defined

mutual

theorem Generates.defined {cx : Context} {n : Tree.Node} {s s' : Supply} {stmts : List Stmt} :
    Generates cx n s stmts s' → Defined [cx.value] (Stmt.walkAll stmts)
  | .literal | .default => .cons (by simp [Stmt.reads]) trivial
  | .print => .cons (by simp [Stmt.reads]) trivial
  | .compute computes below => by
    obtain ⟨hd, -, -, hr, hw, -⟩ := dst_of_computing computes
    rw [Stmt.walkAll, hw]
    exact .make (by simpa using hr) hd below.defined
  | .guard _ below aside => by
    simp only [Stmt.walkAll, Stmt.walk, List.append_nil]
    exact .cons (by simp [Stmt.reads]) (below.defined.append aside.defined)
  | .orFallback below aside => by
    simp only [Stmt.walkAll, Stmt.walk, List.append_nil]
    exact .cons (by simp [Stmt.reads]) (below.defined.append aside.defined)
  | .concatenation below => by
    simp only [Stmt.walkAll, Stmt.walk, List.append_nil]
    exact .cons (by simp [Stmt.reads]) below.defined
  | .notFound below => .cons (by simp [Stmt.reads]) below.defined
  | .root below => below.defined

theorem GeneratesAll.defined {cx : Context} {ns : List Tree.Node} {s s' : Supply}
    {stmts : List Stmt} : GeneratesAll cx ns s stmts s' → Defined [cx.value] (Stmt.walkAll stmts)
  | .nil => trivial
  | .cons first rest => by
    rw [Stmt.walkAll_append]
    exact first.defined.append rest.defined

theorem GeneratesEach.defined {cx : Context} {ns : List Tree.Node} {s s' : Supply}
    {bodies : List (List Stmt)} :
    GeneratesEach cx ns s bodies s' → Defined [cx.value] (Stmt.walkEach bodies)
  | .nil => trivial
  | .concatenation first rest => first.defined.append rest.defined
  | .other first rest => first.defined.append rest.defined

end

section Runs

variable [Sink σ] (sc : Link.Scope ρ) (env : Run.Env ρ)

def steps (stmts : List Stmt) (regs : Run.Registers ρ) (s : σ) : List Stmt :=
  (visitsAll sc env stmts regs s).map (·.1)

theorem steps_cons (st : Stmt) (rest : List Stmt) (regs : Run.Registers ρ) (s : σ) :
    steps sc env (st :: rest) regs s = (visits sc env st regs s).map (·.1) ++
      steps sc env rest (exec sc env [st] regs s).1 (exec sc env [st] regs s).2 := by
  rw [steps, visitsAll, List.map_append]
  rfl

theorem steps_append (a b : List Stmt) (regs : Run.Registers ρ) (s : σ) :
    steps sc env (a ++ b) regs s = steps sc env a regs s ++
      steps sc env b (exec sc env a regs s).1 (exec sc env a regs s).2 := by
  rw [steps, visitsAll_append, List.map_append]
  rfl

mutual

theorem mem_walk_of_visits : (st : Stmt) → (regs : Run.Registers ρ) → (s : σ) →
    ∀ visit ∈ visits sc env st regs s, visit.1 ∈ st.walk
  | .ifPresent g v t o, regs, s => by
    rw [visits, List.forall_mem_cons]
    refine ⟨by simp [Stmt.walk], fun visit h => ?_⟩
    rw [Stmt.walk]
    refine List.mem_cons_of_mem _ (List.mem_append.mpr ?_)
    split at h
    · exact .inr (mem_walk_of_visitsAll o regs s visit h)
    · exact .inl (mem_walk_of_visitsAll t regs s visit h)
  | .capture k p b, regs, s => by
    rw [visits, List.forall_mem_cons]
    refine ⟨by simp [Stmt.walk], fun visit h => ?_⟩
    rw [Stmt.walk]
    exact List.mem_cons_of_mem _ (mem_walk_of_visitsAll b regs _ visit h)
  | .firstNonEmpty k p a o, regs, s => by
    rw [visits, List.forall_mem_cons]
    refine ⟨by simp [Stmt.walk], fun visit h => ?_⟩
    rw [Stmt.walk]
    refine List.mem_cons_of_mem _ (List.mem_append.mpr ?_)
    rcases List.mem_append.mp h with h | h
    · exact .inl (mem_walk_of_visitsEach a regs _ visit h)
    · split at h
      · cases h
      · exact .inr (mem_walk_of_visitsAll o _ s visit h)
  | .text _, _, _ | .load .., _, _ | .math .., _, _ | .cast .., _, _ | .call .., _, _
  | .emit .., _, _ | .emitDefault _, _, _ | .missing _, _, _ => by
    simp [visits, Stmt.walk]

theorem mem_walk_of_visitsAll : (stmts : List Stmt) → (regs : Run.Registers ρ) → (s : σ) →
    ∀ visit ∈ visitsAll sc env stmts regs s, visit.1 ∈ Stmt.walkAll stmts
  | [], _, _ => by simp [visitsAll]
  | st :: rest, regs, s => by
    rw [visitsAll, List.forall_mem_append]
    exact ⟨fun visit h => List.mem_append_left _ (mem_walk_of_visits st regs s visit h),
      fun visit h => List.mem_append_right _ (mem_walk_of_visitsAll rest _ _ visit h)⟩

theorem mem_walk_of_visitsEach : (bodies : List (List Stmt)) → (regs : Run.Registers ρ) →
    (inner : σ) → ∀ visit ∈ visitsEach sc env bodies regs inner, visit.1 ∈ Stmt.walkEach bodies
  | [], _, _ => by simp [visitsEach]
  | body :: rest, regs, inner => by
    rw [visitsEach, List.forall_mem_append]
    refine ⟨fun visit h => List.mem_append_left _ (mem_walk_of_visitsAll body regs _ visit h), ?_⟩
    split
    · exact fun visit h => List.mem_append_right _ (mem_walk_of_visitsEach rest _ _ visit h)
    · simp

end

mutual

/-- Statements are carried out after what makes the temporaries that they look at. -/
theorem Generates.defined_steps {cx : Context} {n : Tree.Node} {st st' : Supply}
    {stmts : List Stmt} (regs : Run.Registers ρ) (s : σ) : Generates cx n st stmts st' →
      Defined [cx.value] (steps sc env stmts regs s)
  | .literal | .print | .default => by
    simp [steps, visitsAll, visits, Defined, Stmt.reads]
  | .compute computes below => by
    obtain ⟨hd, -, -, hr, -, -⟩ := dst_of_computing computes
    rw [steps_cons, visits_computing sc env computes]
    exact .make (by simpa using hr) hd (below.defined_steps _ _)
  | .guard _ below aside => by
    rw [steps, visitsAll_singleton, visits, List.map_cons]
    refine .cons (by simp [Stmt.reads]) ?_
    split
    · exact aside.defined_steps regs s
    · exact below.defined_steps regs s
  | .orFallback below aside => by
    rw [steps, visitsAll_singleton, visits, List.map_cons, List.map_append]
    refine .cons (by simp [Stmt.reads]) (.append (below.defined_steps regs _) ?_)
    split
    · trivial
    · exact aside.defined_steps _ s
  | .concatenation below => by
    rw [steps, visitsAll_singleton, visits, List.map_cons]
    exact .cons (by simp [Stmt.reads]) (below.defined_steps regs _)
  | .notFound below => by
    rw [steps_cons]
    exact .cons (by simp [Stmt.reads]) (below.defined_steps _ _)
  | .root below => below.defined_steps regs s

theorem GeneratesAll.defined_steps {cx : Context} {ns : List Tree.Node} {st st' : Supply}
    {stmts : List Stmt} (regs : Run.Registers ρ) (s : σ) : GeneratesAll cx ns st stmts st' →
      Defined [cx.value] (steps sc env stmts regs s)
  | .nil => trivial
  | .cons first rest => by
    rw [steps_append]
    exact (first.defined_steps regs s).append (rest.defined_steps _ _)

theorem GeneratesEach.defined_steps {cx : Context} {ns : List Tree.Node} {st st' : Supply}
    {bodies : List (List Stmt)} (regs : Run.Registers ρ) (inner : σ) :
    GeneratesEach cx ns st bodies st' →
      Defined [cx.value] ((visitsEach sc env bodies regs inner).map (·.1))
  | .nil => trivial
  | .concatenation first rest => by
    rw [visitsEach, List.map_append]
    refine .append (first.defined_steps regs _) ?_
    split
    · exact rest.defined_steps _ _
    · trivial
  | .other first rest => by
    rw [visitsEach, List.map_append]
    refine .append (first.defined_steps regs _) ?_
    split
    · exact rest.defined_steps _ _
    · trivial

end

end Runs

/-- On every run, before each time that the second statement is carried out, the first is. -/
def Precedes (r : Routine) (d st : Stmt) : Prop :=
  ∀ {ρ σ : Type} [Sink σ] (sc : Link.Scope ρ) (env : Run.Env ρ) (regs : Run.Registers ρ) (s : σ)
    (before after : List Stmt), steps sc env r.body regs s = before ++ st :: after → d ∈ before

/-- Temporaries and sinks are made once, before they are used, and sinks nest as the statements that
make them do. -/
structure SingleAssignment (r : Routine) : Prop where
  names : r.temps.Nodup
  made : ∀ t, (r.walk.filterMap Stmt.dst?).count t = if 0 < t ∧ t < r.temps.length then 1 else 0
  /-- What a statement looks at is the input, or made before on every run. -/
  used : ∀ st ∈ r.walk, ∀ t ∈ st.reads, t = 0 ∨ ∃ d ∈ r.walk, d.dst? = some t ∧ Precedes r d st
  sinks : (0 :: r.walk.filterMap Stmt.sink?).Nodup
  /-- A sink is put into the one around it, or the caller's where there is none. -/
  nested : Nested (Stmt.insideAll 0 r.body)

theorem eq_of_dst {l : List Stmt} (h : (l.filterMap Stmt.dst?).Nodup) {d d' : Stmt} (hd : d ∈ l)
    (hd' : d' ∈ l) {t : Nat} (ht : d.dst? = some t) (ht' : d'.dst? = some t) : d = d' := by
  induction l with
  | nil => cases hd
  | cons first rest ih =>
    have honce : ∀ st ∈ rest, first.dst? = some t → st.dst? ≠ some t := by
      intro st hst hfirst hdst
      rw [List.filterMap_cons_some hfirst] at h
      exact (List.nodup_cons.mp h).1 (List.mem_filterMap.mpr ⟨st, hst, hdst⟩)
    have hrest : (rest.filterMap Stmt.dst?).Nodup :=
      h.sublist ((List.sublist_cons_self first rest).filterMap _)
    rcases List.mem_cons.mp hd with hfirst | hd
    · rcases List.mem_cons.mp hd' with hfirst' | hd'
      · exact hfirst.trans hfirst'.symm
      · exact absurd ht' (honce d' hd' (hfirst ▸ ht))
    · rcases List.mem_cons.mp hd' with hfirst' | hd'
      · exact absurd ht (honce d hd (hfirst' ▸ ht'))
      · exact ih hrest hd hd'

theorem ofTree_singleAssignment {max : Nat} {name : String} {n : Tree.Node} {r : Routine}
    (h : ofTree max name n = .ok r) : SingleAssignment r := by
  obtain ⟨temps, htemps⟩ := ofTree_tempNames h
  obtain ⟨s, hgen, hlen, -⟩ := ofTree_generates h
  have hnum := hgen.numbered
  refine ⟨htemps ▸ tempNames_nodup temps, fun t => ?_, fun st hst t ht => ?_, ?_, hgen.nested⟩
  · have hmem : t ∈ r.walk.filterMap Stmt.dst? ↔ 0 < t ∧ t < r.temps.length := by
      rw [walk, hnum.temps.mem_iff, hlen]
      exact Iff.rfl
    rw [walk, hnum.temps.nodup.count]
    simp only [← hmem, walk]
  · by_cases ht0 : t = 0
    · exact .inl ht0
    obtain ⟨before, after, hwalk⟩ := List.append_of_mem hst
    have hdef := hgen.defined
    rw [← walk, hwalk] at hdef
    obtain ⟨d, hd, hdst⟩ := (hdef.made_before ht).resolve_left (by simpa using ht0)
    have hd : d ∈ r.walk := hwalk ▸ List.mem_append_left _ hd
    refine .inr ⟨d, hd, hdst, fun sc env regs s before after hrun => ?_⟩
    have hsteps := hgen.defined_steps sc env regs s
    rw [hrun] at hsteps
    obtain ⟨d', hd', hdst'⟩ := (hsteps.made_before ht).resolve_left (by simpa using ht0)
    -- On the run it is the same statement, since no other makes the temporary.
    have hsame : d' ∈ r.walk := by
      have : d' ∈ steps sc env r.body regs s := hrun ▸ List.mem_append_left _ hd'
      obtain ⟨visit, hvisit, rfl⟩ := List.mem_map.mp this
      exact mem_walk_of_visitsAll sc env r.body regs s visit hvisit
    rwa [eq_of_dst hnum.temps.nodup hd hsame hdst hdst']
  · refine List.nodup_cons.mpr ⟨fun h0 => ?_, hnum.sinks.nodup⟩
    have := (hnum.sinks.mem_iff.mp h0).1
    omega

end Routine

end PathTemplate
