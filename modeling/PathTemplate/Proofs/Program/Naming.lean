import PathTemplate.Proofs.Program.Scoping
import PathTemplate.Proofs.Routine.SingleAssignment

namespace PathTemplate

open PathTemplate.Tree PathTemplate.Routine

variable {ρ σ : Type}

namespace Routine

structure Named (temps : List String) : Prop where
  nodup : temps.Nodup
  input : tempName temps 0 = "input"
  ne_params : ∀ name ∈ temps, name ≠ "params"
  ne_sink : ∀ name ∈ temps, ∀ n, name ≠ sinkName n

theorem Named.tempNames (temps : List TempKind) : Named (Supply.tempNames temps) where
  nodup := tempNames_nodup temps
  input := by
    obtain ⟨others, h⟩ := tempNames_head temps
    rw [h]
    rfl
  ne_params name h := by
    rcases mem_tempNames h with rfl | ⟨k, i, -, rfl⟩
    · decide
    · exact (word_ne_numbered (by decide) i).symm
  ne_sink _ h := tempNames_ne_sinkName h

theorem sinkName_ne_params (n : Nat) : sinkName n ≠ "params" := by
  by_cases h : n = 0
  · rw [h]
    decide
  · rw [sinkName_eq h]
    exact (word_ne_numbered (by decide) n).symm

theorem tempName_eq {temps : List String} {t : Nat} (h : t < temps.length) :
    tempName temps t = temps[t] := by
  simp [tempName, List.getD_eq_getElem?_getD, h]

theorem tempName_mem {temps : List String} {t : Nat} (h : t < temps.length) :
    tempName temps t ∈ temps := by
  rw [tempName_eq h]
  exact List.getElem_mem h

theorem Named.tempName_inj {temps : List String} (hn : Named temps) {t t' : Nat}
    (ht : t < temps.length) (ht' : t' < temps.length) (h : tempName temps t = tempName temps t') :
    t = t' := by
  rw [tempName_eq ht, tempName_eq ht'] at h
  exact (List.getElem_inj hn.nodup).mp h

/-- The second supply has handed out all that the first has. -/
structure Later (st st' : Supply) : Prop where
  next : st.next ≤ st'.next
  sinks : st.sinks ≤ st'.sinks

theorem Later.refl {st : Supply} : Later st st := ⟨Nat.le_refl _, Nat.le_refl _⟩

theorem Later.trans {st st' st'' : Supply} (h : Later st st') (h' : Later st' st'') :
    Later st st'' :=
  ⟨Nat.le_trans h.next h'.next, Nat.le_trans h.sinks h'.sinks⟩

theorem Numbered.later {st st' : Supply} {stmts : List Stmt} (h : Numbered st st' stmts) :
    Later st st' :=
  ⟨h.temps.le, Nat.le_of_succ_le_succ h.sinks.le⟩

def Between (temps : List String) (st st' : Supply) (name : String) : Prop :=
  (∃ t, st.next ≤ t ∧ t < st'.next ∧ name = tempName temps t) ∨
    ∃ n, st.sinks < n ∧ n ≤ st'.sinks ∧ name = sinkName n

namespace Between

variable {temps : List String} {st st' st'' : Supply} {name : String}

theorem earlier (hl : Later st st') (h : Between temps st' st'' name) :
    Between temps st st'' name := by
  rcases h with ⟨t, hle, hlt, h⟩ | ⟨n, hlt, hle, h⟩
  · exact .inl ⟨t, Nat.le_trans hl.next hle, hlt, h⟩
  · exact .inr ⟨n, Nat.lt_of_le_of_lt hl.sinks hlt, hle, h⟩

theorem later (hl : Later st' st'') (h : Between temps st st' name) :
    Between temps st st'' name := by
  rcases h with ⟨t, hle, hlt, h⟩ | ⟨n, hlt, hle, h⟩
  · exact .inl ⟨t, hle, Nat.lt_of_lt_of_le hlt hl.next, h⟩
  · exact .inr ⟨n, hlt, Nat.le_trans hle hl.sinks, h⟩

variable (hn : Named temps) (hr : st'.next ≤ temps.length) (h : Between temps st st' name)

include hn hr h

theorem ne_temp (hl : Later st st') {t : Nat} (ht : t < st.next) : name ≠ tempName temps t := by
  have hlt := hl.next
  rcases h with ⟨t', hle, hlt', rfl⟩ | ⟨n, -, -, rfl⟩
  · intro heq
    have := hn.tempName_inj (by omega) (by omega) heq
    omega
  · exact (hn.ne_sink _ (tempName_mem (by omega)) n).symm

theorem ne_sink {n : Nat} (hs : n ≤ st.sinks) : name ≠ sinkName n := by
  rcases h with ⟨t, -, hlt, rfl⟩ | ⟨n', hlt, -, rfl⟩
  · exact hn.ne_sink _ (tempName_mem (by omega)) n
  · intro heq
    have := sinkName_inj heq
    omega

theorem ne_params : name ≠ "params" := by
  rcases h with ⟨t, -, hlt, rfl⟩ | ⟨n, -, -, rfl⟩
  · exact hn.ne_params _ (tempName_mem (by omega))
  · exact sinkName_ne_params n

end Between

theorem Generates.later {cx : Context} {n : Node} {st st' : Supply} {stmts : List Stmt}
    (h : Generates cx n st stmts st') : Later st st' := h.numbered.later

theorem GeneratesAll.later {cx : Context} {ns : List Node} {st st' : Supply} {stmts : List Stmt}
    (h : GeneratesAll cx ns st stmts st') : Later st st' := h.numbered.later

theorem GeneratesEach.later {cx : Context} {ns : List Node} {st st' : Supply}
    {bodies : List (List Stmt)} (h : GeneratesEach cx ns st bodies st') : Later st st' :=
  h.numbered.later

/-- What statements of a context find in scope: the value `v` they start from, the sink they write
into, and the parameters of the listing. -/
structure Ready (env : Run.Env ρ) (temps : List String) (cx : Context) (st : Supply) (v : Value ρ)
    (s : σ) (b : Locals ρ σ) : Prop where
  value : b.lookup (tempName temps cx.value) = some (.value v)
  sink : b.lookup (sinkName cx.sink) = some (.sink s)
  input : b.lookup "input" = some (.value (.record env.input))
  params : b.lookup "params" = some (.params env.params)
  value_lt : cx.value < st.next
  sink_le : cx.sink ≤ st.sinks

/-- What statements leave in scope: their own variables, and before them what was there, with
`s` in their sink. -/
def Leaves (temps : List String) (st st' : Supply) (sink : Nat) (s : σ) (b b' : Locals ρ σ) :
    Prop :=
  ∃ news : Locals ρ σ, (∀ x ∈ news, Between temps st st' x.1) ∧
    b' = news ++ Locals.assign (sinkName sink) s b

section

variable {env : Run.Env ρ} {temps : List String} {cx : Context} {st st' st'' : Supply}
  {v v' : Value ρ} {s s' s'' : σ} {b b' b'' : Locals ρ σ}

theorem Ready.later (hl : Later st st') (h : Ready env temps cx st v s b) :
    Ready env temps cx st' v s b :=
  ⟨h.value, h.sink, h.input, h.params, Nat.lt_of_lt_of_le h.value_lt hl.next,
    Nat.le_trans h.sink_le hl.sinks⟩

theorem Ready.deeper (h : Ready env temps cx st v s b) : Ready env temps cx.deeper st v s b :=
  ⟨h.value, h.sink, h.input, h.params, h.value_lt, h.sink_le⟩

theorem Leaves.lookup {name : String} {sink : Nat} (h : Leaves temps st st' sink s' b b')
    (hs : sinkName sink ≠ name) (hnew : ∀ {n}, Between temps st st' n → n ≠ name) :
    b'.lookup name = b.lookup name := by
  obtain ⟨news, hnews, rfl⟩ := h
  rw [Locals.lookup_append fun x hx => hnew (hnews x hx), Locals.lookup_assign_of_ne hs]

theorem Ready.ne_sink {name : String} {x : Variable ρ σ} (hb : Ready env temps cx st v s b)
    (h : b.lookup name = some x) (hx : ∀ t, x ≠ .sink t) : sinkName cx.sink ≠ name := by
  rintro rfl
  rw [hb.sink] at h
  exact hx s (Option.some.inj h).symm

theorem Leaves.ready (hn : Named temps) (hr : st'.next ≤ temps.length) (hl : Later st st')
    (h : Leaves temps st st' cx.sink s' b b') (hb : Ready env temps cx st v s b) :
    Ready env temps cx st' v s' b' where
  value := (h.lookup (hb.ne_sink hb.value (by simp)) fun hnew =>
    hnew.ne_temp hn hr hl hb.value_lt).trans hb.value
  sink := by
    obtain ⟨news, hnews, rfl⟩ := h
    rw [Locals.lookup_append fun x hx => (hnews x hx).ne_sink hn hr hb.sink_le,
      Locals.lookup_assign_self hb.sink]
  input := (h.lookup (hb.ne_sink hb.input (by simp)) fun hnew =>
    hn.input ▸ hnew.ne_temp hn hr hl (Nat.succ_pos _)).trans hb.input
  params := (h.lookup (hb.ne_sink hb.params (by simp)) fun hnew =>
    hnew.ne_params hn hr).trans hb.params
  value_lt := Nat.lt_of_lt_of_le hb.value_lt hl.next
  sink_le := Nat.le_trans hb.sink_le hl.sinks

theorem Leaves.trans (hn : Named temps) (hr : st'.next ≤ temps.length) (hl : Later st st')
    (hl' : Later st' st'') (hb : Ready env temps cx st v s b)
    (h : Leaves temps st st' cx.sink s' b b') (h' : Leaves temps st' st'' cx.sink s'' b' b'') :
    Leaves temps st st'' cx.sink s'' b b'' := by
  obtain ⟨news, hnews, rfl⟩ := h
  obtain ⟨more, hmore, rfl⟩ := h'
  refine ⟨more ++ news, List.forall_mem_append.mpr ⟨fun x hx => (hmore x hx).earlier hl,
    fun x hx => (hnews x hx).later hl'⟩, ?_⟩
  rw [Locals.assign_append fun x hx => (hnews x hx).ne_sink hn hr hb.sink_le,
    Locals.assign_assign, List.append_assoc]

theorem Leaves.assign : Leaves temps st st' cx.sink s' b (Locals.assign (sinkName cx.sink) s' b) :=
  ⟨[], by simp, rfl⟩

theorem Leaves.refl (hb : Ready env temps cx st v s b) : Leaves temps st st' cx.sink s b b :=
  ⟨[], by simp, (Locals.assign_of_lookup hb.sink).symm⟩

theorem Leaves.declare {name : String} {x : Variable ρ σ} (hb : Ready env temps cx st v s b)
    (hname : Between temps st st' name) : Leaves temps st st' cx.sink s b ((name, x) :: b) := by
  refine ⟨[(name, x)], by simpa using hname, ?_⟩
  rw [Locals.assign_of_lookup hb.sink]
  rfl

theorem Leaves.leave {sink : Nat} (h : Leaves temps st st' sink s' b b') :
    b.leave b' = Locals.assign (sinkName sink) s' b := by
  obtain ⟨news, -, rfl⟩ := h
  exact Locals.leave_append Locals.length_assign

theorem Leaves.update (hn : Named temps) (hr : st'.next ≤ temps.length)
    (hb : Ready env temps cx st v s b) (h : Leaves temps st st' cx.sink s' b b') :
    Leaves temps st st' cx.sink s'' b (Locals.assign (sinkName cx.sink) s'' b') := by
  obtain ⟨news, hnews, rfl⟩ := h
  refine ⟨news, hnews, ?_⟩
  rw [Locals.assign_append fun x hx => (hnews x hx).ne_sink hn hr hb.sink_le,
    Locals.assign_assign]

theorem between_temp (k : TempKind) : Between temps st (st.temp k).2 (tempName temps st.next) :=
  .inl ⟨st.next, Nat.le_refl _, Nat.lt_succ_self _, rfl⟩

theorem between_sink : Between temps st st.sink.2 (sinkName st.sink.1) :=
  .inr ⟨st.sink.1, Nat.lt_succ_self _, Nat.le_refl _, rfl⟩

theorem later_temp (k : TempKind) : Later st (st.temp k).2 :=
  ⟨Nat.le_succ _, Nat.le_refl _⟩

theorem later_sink : Later st st.sink.2 := ⟨Nat.le_refl _, Nat.le_succ _⟩

theorem Ready.compute {k : TempKind} {ty : FlaggedTy} (hn : Named temps)
    (hr : (st.temp k).2.next ≤ temps.length) (hb : Ready env temps cx st v s b) :
    Ready env temps (cx.descend st.next ty) (st.temp k).2 v' s
      ((tempName temps st.next, .value v') :: b) :=
  have h := (Leaves.declare (x := .value v') hb (between_temp k)).ready hn hr (later_temp k) hb
  ⟨List.lookup_cons_self, h.sink, h.input, h.params, Nat.lt_succ_self _, h.sink_le⟩

theorem Ready.into (hn : Named temps) (hr : st.sink.2.next ≤ temps.length)
    (hb : Ready env temps cx st v s b) :
    Ready env temps (cx.deeper.into st.sink.1) st.sink.2 v s'
      ((sinkName st.sink.1, .sink s') :: b) :=
  have h := (Leaves.declare (x := .sink s') hb between_sink).ready hn hr later_sink hb
  ⟨h.value, List.lookup_cons_self, h.input, h.params, h.value_lt, Nat.le_refl _⟩

/-- A block with a sink of its own, which is written into at `b'` and still in scope at its end. -/
theorem Leaves.inner (hn : Named temps) (hr : st'.next ≤ temps.length) (hl : Later st.sink.2 st')
    (hb : Ready env temps cx st v s b)
    (h : Leaves temps st.sink.2 st' st.sink.1 s'' ((sinkName st.sink.1, .sink s') :: b) b') :
    Leaves temps st st' cx.sink s b b' ∧ b'.lookup (sinkName st.sink.1) = some (.sink s'') := by
  obtain ⟨news, hnews, rfl⟩ := h
  rw [Locals.assign_cons_self]
  refine ⟨⟨news ++ [(sinkName st.sink.1, .sink s'')], List.forall_mem_append.mpr
    ⟨fun x hx => (hnews x hx).earlier later_sink, by simpa using between_sink.later hl⟩, ?_⟩, ?_⟩
  · rw [Locals.assign_of_lookup hb.sink, List.append_assoc]
    rfl
  · rw [Locals.lookup_append fun x hx =>
      (hnews x hx).ne_sink (n := st.sink.1) hn hr (Nat.le_refl _)]
    exact List.lookup_cons_self

theorem Leaves.closed (hn : Named temps) (hr : st''.next ≤ temps.length) (hl : Later st.sink.2 st')
    (hl' : Later st' st'') (hb : Ready env temps cx st v s b) {t u : σ}
    (h : Leaves temps st.sink.2 st' st.sink.1 t ((sinkName st.sink.1, .sink u) :: b) b')
    (h' : Leaves temps st' st'' cx.sink s' b' b'') :
    Leaves temps st st'' cx.sink s' b
      (Locals.leave ((sinkName st.sink.1, .sink u) :: b) b'') := by
  obtain ⟨news, hnews, rfl⟩ := h
  obtain ⟨more, -, rfl⟩ := h'
  have hsink : sinkName st.sink.1 ≠ sinkName cx.sink := fun heq => by
    have hle := hb.sink_le
    have : st.sinks + 1 = cx.sink := sinkName_inj heq
    omega
  refine ⟨[(sinkName st.sink.1, .sink t)], by
    simpa using (between_sink.later hl).later hl', ?_⟩
  rw [Locals.assign_cons_self, Locals.assign_append fun x hx =>
      (hnews x hx).ne_sink hn (Nat.le_trans hl'.next hr) (Nat.le_trans hb.sink_le (Nat.le_succ _)),
    Locals.assign_cons_of_ne hsink, ← List.append_assoc,
    Locals.leave_append (by simp [Locals.length_assign])]
  rfl

end

end Routine

end PathTemplate
