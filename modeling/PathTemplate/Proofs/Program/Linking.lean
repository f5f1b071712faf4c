import PathTemplate.Proofs.Program.Execution
import PathTemplate.Proofs.Tree.Typing

namespace PathTemplate

open PathTemplate.Tree PathTemplate.Routine

variable {ρ : Type}

namespace Link

variable {sc : Link.Scope ρ}

theorem slot_eq_nil {t : Nat} (h : t < sc.temps) : slot sc t = [] := if_pos h

theorem bind_of_navigates {ty : Ty} {a : Access} {next : FlaggedTy}
    (h : Navigates sc.schema ty a next) : ∃ b, bind sc a = .ok b := by
  cases h with
  | field hm => exact ⟨_, bind_eq_ok_iff.mpr (.inr ⟨_, hm, rfl⟩)⟩
  | method hm => exact ⟨_, bind_eq_ok_iff.mpr (.inr ⟨_, hm, rfl⟩)⟩
  | key => exact ⟨_, rfl⟩

theorem bindAll_of_reaches {ty last : Ty} {steps : List Access}
    (h : Reaches sc.schema ty steps last) : (bindAll sc steps).2 = [] := by
  induction h with
  | here => rfl
  | step hn _ ih =>
    obtain ⟨b, hb⟩ := bind_of_navigates hn
    simp [bindAll, hb, ih]

end Link

section Typed

variable {s : Tree.Scope ρ} {temps : Nat}

theorem arguments_of_fit {handedOn : Prop} {args : List Argument}
    (h : ∀ a ∈ args, ArgumentFits s handedOn a) :
    (Link.arguments ⟨s.schema, s.functions, temps⟩ args).2 = [] := by
  simp only [Link.arguments, List.flatMap_map, List.flatMap_eq_nil_iff]
  intro a ha
  cases a with
  | constant | null => rfl
  | path steps =>
    obtain ⟨ty, hr, -⟩ := h _ ha
    exact Link.bindAll_of_reaches hr

theorem stmt_of_fits {cur ty : FlaggedTy} {kind : NodeKind} {children otherwise : List Node}
    (h : Fits s cur ty children otherwise kind) {dst src : Nat} {temp : TempKind} {st : Stmt}
    (hc : computing? dst src ty.ty kind = some (temp, st)) (hdst : dst < temps)
    (hsrc : src < temps) : (Link.stmt ⟨s.schema, s.functions, temps⟩ st).2 = [] := by
  have hslots : Link.slot ⟨s.schema, s.functions, temps⟩ dst = [] ∧
      Link.slot ⟨s.schema, s.functions, temps⟩ src = [] :=
    ⟨Link.slot_eq_nil hdst, Link.slot_eq_nil hsrc⟩
  have hload : ∀ access, Navigates s.schema cur.ty access ty →
      (Link.stmt ⟨s.schema, s.functions, temps⟩ (.load dst src access)).2 = [] := by
    intro access hn
    obtain ⟨b, hb⟩ : ∃ b, Link.bind ⟨s.schema, s.functions, temps⟩ access = .ok b :=
      Link.bind_of_navigates hn
    simp [Link.stmt, hb, hslots]
  cases kind with
  | field | method | mapAccess =>
    obtain ⟨rfl, rfl⟩ : _ ∧ _ := by simpa [computing?] using hc
    exact hload _ h.2.1
  | math | cast =>
    obtain ⟨rfl, rfl⟩ : _ ∧ _ := by simpa [computing?] using hc
    simp [Link.stmt, hslots]
  | function name args =>
    obtain ⟨rfl, rfl⟩ : _ ∧ _ := by simpa [computing?] using hc
    obtain ⟨⟨f, hlookup, -⟩, hargs, -⟩ := h
    simp [Link.stmt, hlookup, hslots, arguments_of_fit hargs]
  | _ => simp [computing?] at hc

theorem passes_of_computing {cur ty : FlaggedTy} {kind : NodeKind} {dst src : Nat} {target : Ty}
    {r : TempKind × Stmt} (h : computing? dst src target kind = some r) :
    kind.passes cur ty = ty := by
  cases kind <;> first | rfl | simp [computing?] at h

theorem passes_of_guard {cur ty : FlaggedTy} {kind : NodeKind} {guard : GuardKind}
    (h : guardOf? kind = some guard) : kind.passes cur ty = ty := by
  cases kind <;> first | rfl | simp [guardOf?] at h

end Typed

namespace Routine

variable {s : Tree.Scope ρ} {temps : Nat}

mutual

theorem Generates.links {cx : Context} {n : Node} {st st' : Supply} {stmts : List Stmt} :
    Generates cx n st stmts st' → Typed s cx.ty n → cx.value < st.next → st'.next ≤ temps →
      (Link.block ⟨s.schema, s.functions, temps⟩ stmts).2 = []
  | .literal, _, _, _ => rfl
  | .compute computes below, h, hv, ht => by
    have hle := below.next_le
    rw [Supply.next_temp] at hle
    have hstmt := stmt_of_fits h.fits computes (show st.next < temps by omega) (by omega)
    have hbelow := h.children
    rw [passes_of_computing computes] at hbelow
    have hrest := below.links hbelow (Nat.lt_succ_self _) ht
    simp [Link.block, hstmt, hrest]
  | .guard guards below aside, h, hv, ht => by
    have hle := aside.next_le
    have hle' := below.next_le
    have hbelow := h.children
    rw [passes_of_guard guards] at hbelow
    have hp := below.links hbelow hv (by omega)
    have ho := aside.links h.otherwise (Nat.lt_of_lt_of_le hv hle') ht
    have hslot : Link.slot ⟨s.schema, s.functions, temps⟩ cx.value = [] :=
      Link.slot_eq_nil (show cx.value < temps by omega)
    simp [Link.block, Link.stmt, hslot, hp, ho]
  | .orFallback below aside, h, hv, ht => by
    have hle := aside.next_le
    have hb := below.links h.children hv (by omega)
    have ho := aside.links h.otherwise (Nat.lt_of_lt_of_le hv below.next_le) ht
    simp [Link.block, Link.stmt, hb, ho]
  | .concatenation below, h, hv, ht => by
    simp [Link.block, Link.stmt, below.links h.children hv ht]
  | .print, _, hv, ht => by
    have hslot : Link.slot ⟨s.schema, s.functions, temps⟩ cx.value = [] :=
      Link.slot_eq_nil (Nat.lt_of_lt_of_le hv ht)
    simp [Link.block, Link.stmt, hslot]
  | .default, _, _, _ => rfl
  | .notFound below, h, hv, ht => by
    simp [Link.block, Link.stmt, below.links h.children hv ht]
  | .root _, h, _, _ => h.fits.elim

theorem GeneratesAll.links {cx : Context} {ns : List Node} {st st' : Supply}
    {stmts : List Stmt} : GeneratesAll cx ns st stmts st' → (∀ n ∈ ns, Typed s cx.ty n) →
      cx.value < st.next → st'.next ≤ temps →
      (Link.block ⟨s.schema, s.functions, temps⟩ stmts).2 = []
  | .nil, _, _, _ => rfl
  | .cons first rest, h, hv, ht => by
    have hle := rest.next_le
    have hf := first.links (h _ List.mem_cons_self) hv (by omega)
    have hr := rest.links (fun n hn => h n (List.mem_cons_of_mem _ hn))
      (Nat.lt_of_lt_of_le hv first.next_le) ht
    simp [Link.block_append, hf, hr]

theorem GeneratesEach.links {cx : Context} {ns : List Node} {st st' : Supply}
    {bodies : List (List Stmt)} : GeneratesEach cx ns st bodies st' →
      (∀ n ∈ ns, Typed s cx.ty n) → cx.value < st.next → st'.next ≤ temps →
      (Link.blocks ⟨s.schema, s.functions, temps⟩ bodies).2 = []
  | .nil, _, _, _ => rfl
  | .concatenation first rest, h, hv, ht => by
    have hle := rest.next_le
    have hf := first.links (h _ List.mem_cons_self).children hv (by omega)
    have hr := rest.links (fun n hn => h n (List.mem_cons_of_mem _ hn))
      (Nat.lt_of_lt_of_le hv first.next_le) ht
    simp [Link.blocks, hf, hr]
  | .other first rest, h, hv, ht => by
    have hle := rest.next_le
    have hf := first.links (h _ List.mem_cons_self) hv (by omega)
    have hr := rest.links (fun n hn => h n (List.mem_cons_of_mem _ hn))
      (Nat.lt_of_lt_of_le hv first.next_le) ht
    simp [Link.blocks, hf, hr]

end

/-- The routine of a typed tree always becomes a program. -/
theorem ofTree_links {sink : String} {children : List Node} {depth : Nat} {name : String}
    {r : Routine} (hs : (s.schema.shape? s.input).isSome)
    (h : ∀ c ∈ children, Typed s (.plain (.record s.input)) c)
    (hr : ofTree depth name (.root s.input sink children) = .ok r) :
    ∃ p, Program.link s.schema s.functions r = .ok p := by
  obtain ⟨st, hgen, htemps, hinput, -⟩ := ofTree_generates hr
  have hl := hgen.links h (Nat.succ_pos _) (Nat.le_of_eq htemps.symm)
  refine ⟨_, Program.link_eq_ok.mpr ⟨?_, hl, rfl⟩⟩
  rw [hinput]
  exact hs

end Routine

end PathTemplate
