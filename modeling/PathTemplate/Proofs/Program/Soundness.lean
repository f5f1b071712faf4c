import PathTemplate.Proofs.Program.Linking
import PathTemplate.Proofs.Program.Trace
import PathTemplate.Proofs.Value.Conformance

/-!
Typed trees run safely. As long as members, functions and parameters keep to their declared types,
every register holds a value of the type its node was checked with. So no statement ever reads from
a value of another form, arithmetic never comes out null, and no map or record reaches a sink.
-/

namespace PathTemplate

open PathTemplate.Tree PathTemplate.Routine

variable {ρ σ : Type}

/-- What is known of a value where a node of the tree finds it. A cast to text may have met an
unknown value that is null, so that texts can be null without a flag. -/
def Holds (isA : ρ → String → Prop) (t : FlaggedTy) (v : Value ρ) : Prop :=
  v.isNull ∧ (t.isFlagged ∨ t.ty = .unknown ∨ t.ty = .string) ∨ HasShape isA t.ty v

namespace Holds

variable {isA : ρ → String → Prop} {t : FlaggedTy} {v : Value ρ}

theorem of_conforms (h : Conforms isA t v) : Holds isA t v := by
  unfold Conforms at h
  split at h
  next hv =>
    simp only [FlaggedTy.mayBeAbsent, Bool.or_eq_true, beq_iff_eq] at h
    rcases h with h | h
    · exact .inl ⟨hv, .inl h⟩
    · exact .inl ⟨hv, .inr (.inl h)⟩
  next => exact .inr h

theorem hasShape (h : Holds isA t v) (hv : v.isNull = false) : HasShape isA t.ty v := by
  rcases h with ⟨hn, -⟩ | h
  · simp [hv] at hn
  · exact h

theorem present (h : Holds isA t v) (hf : t.isFlagged = false) (hu : t.ty ≠ .unknown)
    (hs : t.ty ≠ .string) : HasShape isA t.ty v := by
  rcases h with ⟨-, h | h | h⟩ | h
  · simp [hf] at h
  · exact absurd h hu
  · exact absurd h hs
  · exact h

theorem absent (h : Holds isA t v) (hf : t.isFlagged = false) (hv : v.isNull) :
    t.ty = .unknown ∨ t.ty = .string := by
  by_cases hu : t.ty = .unknown
  · exact .inl hu
  by_cases hs : t.ty = .string
  · exact .inr hs
  · have := (h.present hf hu hs).not_null hu
    simp [hv] at this

theorem isPlain (h : Holds isA t v) (hp : t.ty.isPrintable) : v.isPlain := by
  rcases h with ⟨hn, -⟩ | h
  · exact Value.isPlain_of_isNull hn
  · exact h.isPlain hp

end Holds

theorem Tree.Navigates.ne_text {schema : Schema ρ} {ty : Ty} {a : Access} {next : FlaggedTy}
    (h : Navigates schema ty a next) : ty ≠ .unknown ∧ ty ≠ .string := by
  cases h <;> simp

theorem Ty.ne_of_isNumeric {ty : Ty} (h : ty.isNumeric) : ty ≠ .unknown ∧ ty ≠ .string := by
  cases ty <;> simp_all [Ty.isNumeric]

/-- What a statement finds in the registers: a record of the type whose member it reads or a map for
its key, numbers for arithmetic, and a value that is there where nothing is checked. -/
def FindsType (isA : ρ → String → Prop) (regs : Run.Registers ρ) : Stmt → Prop
  | .load _ src (.field owner _) | .load _ src (.method owner _) =>
    ∃ r, Run.read regs src = .record r ∧ isA r owner
  | .load _ src (.key _) => ∃ size lookup, Run.read regs src = .map size lookup
  | .math _ src op operand ty =>
    ty.isNumeric ∧ ((Run.read regs src).math op operand ty).isNull = false ∧
      HasShape isA ty ((Run.read regs src).math op operand ty)
  | .cast _ src target =>
    (Run.read regs src).isNull ∨ HasShape isA target ((Run.read regs src).cast target)
  | .emit value .unchecked => (Run.read regs value).isNull = false
  | _ => True

/-- A visit that finds what it needs and hands no map or record to the sink. Only a parameter could
hide one, inside a list. -/
structure Safe (isA : ρ → String → Prop) (env : Run.Env ρ) (visit : Visit ρ) : Prop where
  finds : FindsType isA visit.2 visit.1
  writes : ∀ v ∈ accepted env visit, v.isUnwritable = false ∧
    (v.isPlain ∨ ∃ name, env.params.get? name = some v)

theorem Safe.isPlain {isA : ρ → String → Prop} {env : Run.Env ρ} {visit : Visit ρ}
    (h : Safe isA env visit) (hparams : ∀ name v, env.params.get? name = some v → v.isPlain)
    {v : Value ρ} (hv : v ∈ accepted env visit) : v.isPlain := by
  rcases (h.writes v hv).2 with hplain | ⟨name, hget⟩
  · exact hplain
  · exact hparams name v hget

theorem Tree.Navigates.finds {schema : Schema ρ} {isA : ρ → String → Prop} {ty : Ty} {a : Access}
    {next : FlaggedTy} (h : Navigates schema ty a next) {dst src : Nat} {regs : Run.Registers ρ}
    (hv : HasShape isA ty (Run.read regs src)) : FindsType isA regs (.load dst src a) := by
  cases h with
  | field | method => exact hv
  | key =>
    obtain ⟨size, lookup, hv, -⟩ := hv
    exact ⟨size, lookup, hv⟩

theorem castAllowed_text {ty target : Ty} (h : ty = .unknown ∨ ty = .string)
    (hc : castAllowed ty target) : target = .unknown ∨ target = .string := by
  rcases h with rfl | rfl <;> cases target <;> simp_all [castAllowed, Ty.isNumeric]

theorem promoted_isNumeric {ty : Ty} (h : ty.isNumeric) (operand : Operand) :
    (promoted ty operand).isNumeric := by
  cases operand with
  | float => rfl
  | int => cases ty <;> simp_all [promoted, Ty.isNumeric]

section

variable {types : RecordTypes ρ} {s : Tree.Scope ρ} {env : Run.Env ρ}

theorem computing_sound (hc : Conforming types s.schema s.functions env.params)
    (hin : types.IsA s.schema env.input s.input) {cur ty : FlaggedTy} {kind : NodeKind}
    {children otherwise : List Node} (hf : Fits s cur ty children otherwise kind)
    {dst src : Nat} {temp : TempKind} {st : Stmt}
    (hst : computing? dst src ty.ty kind = some (temp, st)) {regs : Run.Registers ρ}
    (hv : Holds (types.IsA s.schema) cur (Run.read regs src)) {v : Value ρ}
    (hcv : World.computed? ⟨s.schema, s.functions, env⟩ ty.ty (Run.read regs src) kind = some v) :
    Safe (types.IsA s.schema) env (st, regs) ∧ Holds (types.IsA s.schema) ty v := by
  have hload : ∀ {a : Access}, cur.isFlagged = false → Navigates s.schema cur.ty a ty →
      Safe (types.IsA s.schema) env (.load dst src a, regs) ∧
      Holds (types.IsA s.schema) ty (access s.schema (Run.read regs src) a) := by
    intro a hflag hn
    have hshape := hv.present hflag hn.ne_text.1 hn.ne_text.2
    exact ⟨⟨hn.finds hshape, by simp [accepted]⟩, .of_conforms (hc.access hn hshape)⟩
  cases kind with
  | field | method | mapAccess =>
    obtain ⟨rfl, rfl⟩ : _ ∧ _ := by simpa [computing?] using hst
    obtain rfl : access s.schema _ _ = v := by simpa [World.computed?] using hcv
    exact hload hf.1 hf.2.1
  | math op operand =>
    obtain ⟨rfl, rfl⟩ : _ ∧ _ := by simpa [computing?] using hst
    obtain rfl : Value.math _ _ _ _ = v := by simpa [World.computed?] using hcv
    obtain ⟨hflag, hnum, rfl, hop, -⟩ := hf
    have hne := Ty.ne_of_isNumeric hnum
    have hpnum := promoted_isNumeric hnum operand
    have hmath := (hv.present hflag hne.1 hne.2).math hnum hop
    exact ⟨⟨⟨hpnum, hmath.not_null (Ty.ne_of_isNumeric hpnum).1, hmath⟩, by simp [accepted]⟩,
      .inr hmath⟩
  | cast target =>
    obtain ⟨rfl, rfl⟩ : _ ∧ _ := by simpa [computing?] using hst
    obtain rfl : Value.cast _ _ = v := by simpa [World.computed?] using hcv
    obtain ⟨hflag, hallowed, rfl, -⟩ := hf
    cases hnull : (Run.read regs src).isNull with
    | true =>
      have htarget := castAllowed_text (hv.absent hflag hnull) hallowed
      have hcast : ((Run.read regs src).cast target).isNull := by
        cases hr : Run.read regs src <;> simp_all [Value.cast, Value.isNull]
      exact ⟨⟨.inl hnull, by simp [accepted]⟩, .inl ⟨hcast, .inr htarget⟩⟩
    | false =>
      have hcast := (hv.hasShape hnull).cast hnull hallowed
      exact ⟨⟨.inr hcast, by simp [accepted]⟩, .inr hcast⟩
  | function name args =>
    obtain ⟨rfl, rfl⟩ : _ ∧ _ := by simpa [computing?] using hst
    obtain rfl : World.call _ _ _ = v := by simpa [World.computed?] using hcv
    obtain ⟨⟨f, hlookup, hty⟩, hargs, -⟩ := hf
    exact ⟨⟨trivial, by simp [accepted]⟩, .of_conforms (hc.call hin hlookup hty hargs)⟩
  | _ => simp [computing?] at hst

theorem fallback_safe (hc : Conforming types s.schema s.functions env.params) (f : Fallback) :
    ∀ v ∈ f.values env, v.isUnwritable = false ∧
      (v.isPlain ∨ ∃ name, env.params.get? name = some v) := by
  intro v hv
  cases f with
  | constant c =>
    obtain rfl : v = c.value := by simpa [Fallback.values] using hv
    exact ⟨Value.isUnwritable_of_isPlain c.value_isPlain, .inl c.value_isPlain⟩
  | param name =>
    have hget : env.params.get? name = some v := by simpa [Fallback.values] using hv
    exact ⟨hc.params name v hget, .inr ⟨name, hget⟩⟩

theorem emit_safe (hc : Conforming types s.schema s.functions env.params) {cur : FlaggedTy}
    (hp : cur.ty.isPrintable) {regs : Run.Registers ρ} {value : Nat}
    (hv : Holds (types.IsA s.schema) cur (Run.read regs value)) (default : Option Fallback) :
    Safe (types.IsA s.schema) env (.emit value (checkFor cur default), regs) := by
  have hplain := hv.isPlain hp
  have hwrite : (Run.read regs value).isUnwritable = false ∧ ((Run.read regs value).isPlain ∨
      ∃ name, env.params.get? name = some (Run.read regs value)) :=
    ⟨Value.isUnwritable_of_isPlain hplain, .inl hplain⟩
  unfold checkFor
  split
  next hprim =>
    simp only [Bool.and_eq_true, Bool.not_eq_eq_eq_not, Bool.not_true] at hprim
    have hne : cur.ty ≠ .unknown ∧ cur.ty ≠ .string := by
      constructor <;> intro h <;> simp [h, Ty.isPrimitive] at hprim
    refine ⟨(hv.present hprim.2 hne.1 hne.2).not_null hne.1, ?_⟩
    simpa [accepted, EmitCheck.values] using hwrite
  next =>
    cases default with
    | none => exact ⟨trivial, by simpa [accepted, EmitCheck.values] using hwrite⟩
    | some f =>
      refine ⟨trivial, fun v hmem => ?_⟩
      simp only [accepted, EmitCheck.values] at hmem
      split at hmem
      · exact fallback_safe hc f v hmem
      · rw [List.mem_singleton.mp hmem]
        exact hwrite

end

theorem guard_ty {s : Tree.Scope ρ} {cur ty : FlaggedTy} {kind : NodeKind} {guard : GuardKind}
    {children otherwise : List Node} (hg : guardOf? kind = some guard)
    (hf : Fits s cur ty children otherwise kind) : ty.ty = cur.ty := by
  cases kind with
  | optionalGuard => rw [hf.2.1]
  | nullableGuard =>
    rw [hf.2.2.1]
    rfl
  | _ => simp [guardOf?] at hg

namespace Routine

variable [Sink σ] {types : RecordTypes ρ} {s : Tree.Scope ρ} {env : Run.Env ρ} {temps : Nat}

mutual

/-- From a register that holds a value of the type a node is checked with, the statements of the
node are safe to run. -/
theorem Generates.safe (hc : Conforming types s.schema s.functions env.params)
    (hin : types.IsA s.schema env.input s.input) {cx : Context} {n : Node} {st st' : Supply}
    {stmts : List Stmt} : Generates cx n st stmts st' → Typed s cx.ty n →
      ∀ (regs : Run.Registers ρ) (sk : σ), cx.value < st.next → st'.next ≤ temps →
      temps ≤ regs.length → Holds (types.IsA s.schema) cx.ty (Run.read regs cx.value) →
      ∀ visit ∈ visitsAll ⟨s.schema, s.functions, temps⟩ env stmts regs sk,
        Safe (types.IsA s.schema) env visit
  | .literal, _, regs, sk, _, _, _, _ => by
    simp only [visitsAll_singleton, visits, List.mem_singleton, forall_eq]
    exact ⟨trivial, by simp [accepted, Value.isUnwritable, Value.isPlain]⟩
  | .compute computes below, h, regs, sk, hv, ht, hr, hold => by
    have hle := below.next_le
    rw [Supply.next_temp] at hle
    have hlink := stmt_of_fits h.fits computes (show st.next < temps by omega) (by omega)
    obtain ⟨v, hcv, he⟩ := exec_computed ⟨s.schema, s.functions, temps⟩ env regs sk computes hlink
    obtain ⟨hsafe, hnew⟩ := computing_sound hc hin h.fits computes hold hcv
    have hbelow := h.children
    rw [passes_of_computing computes] at hbelow
    have hread : Run.read (regs.set st.next v) st.next = v :=
      Run.read_set (show st.next < regs.length by omega) v
    have hrest := below.safe hc hin hbelow (regs.set st.next v) sk (Nat.lt_succ_self _) ht
      (by rwa [List.length_set]) (by rw [Context.descend, hread]; exact hnew)
    rw [visitsAll, visits_computing _ _ computes, he]
    exact List.forall_mem_cons.mpr ⟨hsafe, hrest⟩
  | .guard guards below aside, h, regs, sk, hv, ht, hr, hold => by
    have hle := aside.next_le
    have hbelow := h.children
    rw [passes_of_guard guards] at hbelow
    rw [visitsAll_singleton, visits]
    refine List.forall_mem_cons.mpr ⟨⟨trivial, by simp [accepted]⟩, ?_⟩
    split
    · exact aside.safe hc hin h.otherwise regs sk (Nat.lt_of_lt_of_le hv below.next_le) ht hr hold
    next hnull =>
      refine below.safe hc hin hbelow regs sk hv (by omega) hr (.inr ?_)
      rw [Context.descend, guard_ty guards h.fits]
      exact hold.hasShape (by simpa using hnull)
  | .orFallback below aside, h, regs, sk, hv, ht, hr, hold => by
    have hle := aside.next_le
    have hkeep := below.keeps ⟨s.schema, s.functions, temps⟩ env regs (Sink.fresh sk)
    have hb := below.safe hc hin h.children regs (Sink.fresh sk) hv (by omega) hr hold
    rw [visitsAll_singleton, visits]
    refine List.forall_mem_cons.mpr ⟨⟨trivial, by simp [accepted]⟩,
      List.forall_mem_append.mpr ⟨hb, ?_⟩⟩
    split
    · simp
    next hfirst =>
      rw [hfirst] at hkeep
      exact aside.safe hc hin h.otherwise _ sk (Nat.lt_of_lt_of_le hv below.next_le) ht
        (by rwa [hkeep.length]) (by rw [Context.deeper, hkeep.below _ hv]; exact hold)
  | .concatenation below, h, regs, sk, hv, ht, hr, hold => by
    have hb := below.safe hc hin h.children regs (Sink.fresh sk) hv ht hr hold
    rw [visitsAll_singleton, visits]
    exact List.forall_mem_cons.mpr ⟨⟨trivial, by simp [accepted]⟩, hb⟩
  | .print, h, regs, sk, _, _, _, hold => by
    simp only [visitsAll_singleton, visits, List.mem_singleton, forall_eq]
    exact emit_safe hc h.fits.2.1 hold _
  | .default, _, regs, sk, _, _, _, _ => by
    simp only [visitsAll_singleton, visits, List.mem_singleton, forall_eq]
    exact ⟨trivial, fallback_safe hc _⟩
  | .notFound below, h, regs, sk, hv, ht, hr, hold => by
    have hb := below.safe hc hin h.children regs sk hv ht hr hold
    rw [visitsAll, exec_missing]
    exact List.forall_mem_cons.mpr ⟨⟨trivial, by simp [accepted]⟩, hb⟩
  | .root _, h, _, _, _, _, _, _ => h.fits.elim

theorem GeneratesAll.safe (hc : Conforming types s.schema s.functions env.params)
    (hin : types.IsA s.schema env.input s.input) {cx : Context} {ns : List Node}
    {st st' : Supply} {stmts : List Stmt} : GeneratesAll cx ns st stmts st' →
      (∀ n ∈ ns, Typed s cx.ty n) → ∀ (regs : Run.Registers ρ) (sk : σ), cx.value < st.next →
      st'.next ≤ temps → temps ≤ regs.length →
      Holds (types.IsA s.schema) cx.ty (Run.read regs cx.value) →
      ∀ visit ∈ visitsAll ⟨s.schema, s.functions, temps⟩ env stmts regs sk,
        Safe (types.IsA s.schema) env visit
  | .nil, _, _, _, _, _, _, _ => by simp [visitsAll]
  | .cons first rest, h, regs, sk, hv, ht, hr, hold => by
    have hle := rest.next_le
    have hkeep := first.keeps ⟨s.schema, s.functions, temps⟩ env regs sk
    have hf := first.safe hc hin (h _ List.mem_cons_self) regs sk hv (by omega) hr hold
    have hm := fun regs sk => rest.safe hc hin (fun n hn => h n (List.mem_cons_of_mem _ hn))
      regs sk (Nat.lt_of_lt_of_le hv first.next_le) ht
    rw [visitsAll_append]
    exact List.forall_mem_append.mpr
      ⟨hf, hm _ _ (by rwa [hkeep.length]) (by rwa [hkeep.below _ hv])⟩

theorem GeneratesEach.safe (hc : Conforming types s.schema s.functions env.params)
    (hin : types.IsA s.schema env.input s.input) {cx : Context} {ns : List Node}
    {st st' : Supply} {bodies : List (List Stmt)} : GeneratesEach cx ns st bodies st' →
      (∀ n ∈ ns, Typed s cx.ty n) → ∀ (regs : Run.Registers ρ) (inner : σ), cx.value < st.next →
      st'.next ≤ temps → temps ≤ regs.length →
      Holds (types.IsA s.schema) cx.ty (Run.read regs cx.value) →
      ∀ visit ∈ visitsEach ⟨s.schema, s.functions, temps⟩ env bodies regs inner,
        Safe (types.IsA s.schema) env visit
  | .nil, _, _, _, _, _, _, _ => by simp [visitsEach]
  | .concatenation first rest, h, regs, inner, hv, ht, hr, hold => by
    have hle := rest.next_le
    have hkeep := first.keeps ⟨s.schema, s.functions, temps⟩ env regs (Sink.reset inner)
    have hf := first.safe hc hin (h _ List.mem_cons_self).children regs (Sink.reset inner) hv
      (by omega) hr hold
    rw [visitsEach]
    refine List.forall_mem_append.mpr ⟨hf, ?_⟩
    split
    · exact rest.safe hc hin (fun n hn => h n (List.mem_cons_of_mem _ hn)) _ _
        (Nat.lt_of_lt_of_le hv first.next_le) ht (by rwa [hkeep.length])
        (by rwa [hkeep.below _ hv])
    · simp
  | .other first rest, h, regs, inner, hv, ht, hr, hold => by
    have hle := rest.next_le
    have hkeep := first.keeps ⟨s.schema, s.functions, temps⟩ env regs (Sink.reset inner)
    have hf := first.safe hc hin (h _ List.mem_cons_self) regs (Sink.reset inner) hv
      (by omega) hr hold
    rw [visitsEach]
    refine List.forall_mem_append.mpr ⟨hf, ?_⟩
    split
    · exact rest.safe hc hin (fun n hn => h n (List.mem_cons_of_mem _ hn)) _ _
        (Nat.lt_of_lt_of_le hv first.next_le) ht (by rwa [hkeep.length])
        (by rwa [hkeep.below _ hv])
    · simp

end

end Routine

end PathTemplate
