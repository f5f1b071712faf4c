import PathTemplate.Proofs.Template.Concatenation
import PathTemplate.Proofs.Template.Respacing
import PathTemplate.Proofs.Template.RoundTrip

namespace PathTemplate.Template

open Cursor

theorem dropWhile_takeWhile_append (p : Char → Bool) (cs rest : List Char) :
    (cs.takeWhile p ++ rest).dropWhile p = rest.dropWhile p :=
  List.dropWhile_append_of_pos fun _ hy => List.mem_takeWhile_imp hy

theorem eq_takeWhile_append {p : Char → Bool} {cs rest : List Char} (h : cs.dropWhile p = rest) :
    cs = cs.takeWhile p ++ rest := by
  rw [← h]
  exact List.takeWhile_append_dropWhile.symm

theorem blanks_first (cs : List Char) (rest : List Char) (h : ∀ x ∈ rest.head?, Text.isBlank x) :
    ∀ x ∈ (cs.takeWhile Text.isBlank ++ rest).head?, Text.isBlank x := by
  intro x hx
  cases hcs : cs.takeWhile Text.isBlank with
  | nil =>
    rw [hcs] at hx
    exact h x hx
  | cons y ys =>
    rw [hcs] at hx
    cases hx
    exact List.mem_takeWhile_imp (by rw [hcs]; exact List.mem_cons_self)

namespace Cursor

variable {c after : Cursor}

theorem skipBlanks_run {x : Char} {cs : List Char} (h : c.skipBlanks.rest = x :: cs) :
    ∃ run, c.rest = run ++ x :: cs ∧ ∀ cs',
      skipBlanks ⟨c.pos, run ++ x :: cs'⟩ = ⟨c.skipBlanks.pos, x :: cs'⟩ := by
  have hx : Stops Text.isBlank (x :: cs) := h ▸ stops_dropWhile _ _
  have hblank : ∀ y ∈ c.rest.takeWhile Text.isBlank, Text.isBlank y := fun y hy =>
    List.mem_takeWhile_imp hy
  refine ⟨_, eq_takeWhile_append h, fun cs' => ?_⟩
  rw [skipBlanks, takeWhile_stop hblank (by simp [stops_cons.mp hx])]
  rfl

theorem eat?_run {x : Char} (h : c.eat? x = some after) (cs : List Char) :
    eat? ⟨c.pos, x :: cs⟩ x = some ⟨after.pos, cs⟩ := by
  rw [eat?_cons, if_pos rfl, (eat?_eq_some h).2]

theorem peek_run {run : List Char} (hrun : c.rest = run ++ after.rest)
    (hlt : after.rest.length < c.rest.length) (rest' : List Char) :
    peek ⟨c.pos, run ++ rest'⟩ = c.peek := by
  cases run with
  | nil => simp [hrun] at hlt
  | cons x run => simp [peek, hrun]

theorem number_before_blank {n : Operand} (h : c.number = .ok (n, after)) :
    ∃ x run, c.rest = x :: (run ++ after.rest) ∧ ∀ rest', (∀ y ∈ rest'.head?, Text.isBlank y) →
      number ⟨c.pos, x :: (run ++ rest')⟩ = .ok (n, ⟨after.pos, rest'⟩) := by
  obtain ⟨run, hrun, hread⟩ := number_run h
  have hread' : ∀ rest', (∀ y ∈ rest'.head?, Text.isBlank y) →
      number ⟨c.pos, run ++ rest'⟩ = .ok (n, ⟨after.pos, rest'⟩) := by
    intro rest' hrest
    obtain ⟨stop, hread⟩ := hread c.pos rest' fun y hy => .inl (hrest y hy)
    have hstop := (number_reaches hread).pos_eq rfl
    obtain rfl : stop = after.pos := hstop.trans ((number_reaches h).pos_eq hrun).symm
    exact hread
  cases run with
  | nil =>
    have hat := atNumber_of_number (hread' [' '] (by simp))
    simp [atNumber] at hat
  | cons x run => exact ⟨x, run, hrun, hread'⟩

end Cursor

/-- What may come in the place of a rest: no less text, and a blank first or what was first. -/
structure Resembles (rest rest' : List Char) : Prop where
  first : ∀ x ∈ rest'.head?, Text.isBlank x ∨ x ∈ rest.head?
  le : rest.length ≤ rest'.length

namespace Resembles

variable {rest rest' : List Char}

theorem append (h : Resembles rest rest') (run : List Char) :
    Resembles (run ++ rest) (run ++ rest') where
  first := by
    cases run with
    | nil => exact h.first
    | cons x run => simp
  le := by
    have := h.le
    simp only [List.length_append]
    omega

theorem stops (h : Resembles rest rest') {p : Char → Bool}
    (hp : ∀ x, Text.isBlank x → p x = false) (hrest : Stops p rest) : Stops p rest' := by
  intro x hx
  rcases h.first x hx with hb | hx
  · exact hp x hb
  · exact hrest x hx

theorem eat?_none (h : Resembles rest rest') {x : Char} (hx : Text.isBlank x = false) {pos : Nat}
    (heat : eat? ⟨pos, rest⟩ x = none) : eat? ⟨pos, rest'⟩ x = none := by
  rw [eat?_eq_none] at heat ⊢
  intro hpeek
  rcases h.first x hpeek with hb | hfirst
  · simp [hx] at hb
  · exact heat hfirst

end Resembles

/-- From one place to the other the value `a` is read, and it still is with another rest. -/
def Takes {α : Type} (reader : Reader α) (c : Cursor) (a : α) (after : Cursor) : Prop :=
  ∃ run, c.rest = run ++ after.rest ∧ ∀ rest', Resembles after.rest rest' →
    reader ⟨c.pos, run ++ rest'⟩ = .ok (a, ⟨after.pos, rest'⟩)

namespace Parser

variable {chain : Reader Chain} {c after : Cursor}

theorem takes_of_followed {α : Type} {reader : Reader α} {a : α} (mark : Char)
    (hmark : mark ∈ [')', ']', '}']) (hreach : c.Reaches after)
    (h : ∀ more : Ending, after.ClosedBy mark more →
      reader (c.followed more) = .ok (a, after.followed more)) : Takes reader c a after := by
  obtain ⟨run, hrun, -⟩ := hreach
  refine ⟨run, hrun, fun rest' hrest => ?_⟩
  obtain ⟨pos, rest⟩ := c
  obtain rfl : rest = run ++ after.rest := hrun
  have hread := h ⟨mark, after.rest, rest', hmark, hrest.le⟩ List.suffix_rfl
  rw [followed_mk ⟨mark, after.rest, rest', hmark, hrest.le⟩ pos run] at hread
  rw [hread]
  have hafter := followed_mk ⟨mark, after.rest, rest', hmark, hrest.le⟩ after.pos []
  exact congrArg (fun after => Except.ok (a, after)) hafter

theorem key_takes {id : Ident} (h : c.key = .ok (id, after)) : Takes key c id after :=
  takes_of_followed ']' (by decide) (key_reaches h) fun more hclosed =>
    key_followed more hclosed h

theorem args_takes (hchain : Local chain) (hadv : Advances chain) {as : List Arg}
    (h : args chain c = .ok (as, after)) : Takes (args chain) c as after :=
  takes_of_followed ')' (by decide) (args_advances hadv h) fun more hclosed =>
    args_followed more hchain hadv hclosed h

theorem ident_takes {what : String} {id : Ident} (h : c.ident what = .ok (id, after)) :
    Takes (ident · what) c id after := by
  have hid := ident_isName h
  obtain ⟨hname, -, hdrop⟩ := ident?_eq_some hid
  obtain ⟨hrun, hpos, hspan⟩ := ident?_run hid
  refine ⟨_, hrun, fun rest' hrest => ?_⟩
  have hstops : Stops isNameChar after.rest := hdrop ▸ stops_dropWhile _ _
  obtain ⟨span, stop, hread⟩ :=
    ident?_name hname (hrest.stops (fun _ => isNameChar_of_isBlank) hstops) c.pos
  obtain ⟨-, hpos', hspan'⟩ := ident?_run hread
  obtain rfl : stop = after.pos := hpos'.trans hpos.symm
  obtain rfl : span = id.span := hspan'.trans hspan.symm
  simp only [ident, hread]

theorem head_takes (hchain : Local chain) (hadv : Advances chain) {hd : Head}
    (h : head chain c = .ok (hd, after)) : Takes (head chain) c hd after := by
  rcases head_eq_ok.mp h with ⟨hkey, k, hk, rfl⟩ | ⟨hkey, id, c', hid, h⟩
  · obtain ⟨run, hrun, hread⟩ := key_takes hk
    have hpeek := peek_run hrun (key_length hkey hk)
    exact ⟨run, hrun, fun rest' hrest =>
      head_eq_ok.mpr (.inl ⟨(hpeek rest').trans hkey, k, hread rest' hrest, rfl⟩)⟩
  · obtain ⟨run, hrun, hread⟩ := ident_takes hid
    have hpeek := peek_run hrun (ident_length hid)
    rcases h with ⟨inside, hparen, as, has, rfl⟩ | ⟨hparen, rfl, rfl⟩
    · obtain ⟨run', hrun', hread'⟩ := args_takes hchain hadv has
      have hrest := (eat?_eq_some hparen).1
      refine ⟨run ++ '(' :: run', by simp [hrun, hrest, hrun'], fun rest' hrest' => ?_⟩
      rw [List.append_assoc, List.cons_append]
      refine head_eq_ok.mpr (.inr ⟨hpeek _ ▸ hkey, id, _, hread _ ?_,
        .inl ⟨_, eat?_run hparen _, as, hread' rest' hrest', rfl⟩⟩)
      rw [hrest, hrun']
      exact hrest'.append ('(' :: run')
    · exact ⟨run, hrun, fun rest' hrest => head_eq_ok.mpr (.inr ⟨hpeek rest' ▸ hkey, id, _,
        hread rest' hrest, .inr ⟨hrest.eat?_none (by decide) hparen, rfl, rfl⟩⟩)⟩

theorem dotStep_takes {start : Nat} {s : Step} (hs : s.isJoin = false)
    (h : dotStep chain start c = .ok (s, after)) (start' : Nat) :
    Takes (dotStep chain start') c s after := by
  rcases dotStep_eq_ok.mp h with ⟨-, items, -, rfl⟩ | ⟨hjoin, id, c', hid, h⟩
  · cases hs
  · obtain ⟨run, hrun, hread⟩ := ident_takes hid
    have hpeek := peek_run hrun (ident_length hid)
    rcases h with ⟨inside, hparen, hclose, rfl⟩ | ⟨hparen, rfl, rfl⟩
    · have hrest := (eat?_eq_some hparen).1
      obtain ⟨run', hrun', hskip⟩ := skipBlanks_run (eat?_eq_some hclose).1
      refine ⟨run ++ '(' :: (run' ++ [')']), by simp [hrun, hrest, hrun'], fun rest' hrest' => ?_⟩
      simp only [List.append_assoc, List.cons_append, List.nil_append]
      refine dotStep_eq_ok.mpr (.inr ⟨hpeek _ ▸ hjoin, id, _, hread _ ?_,
        .inl ⟨_, eat?_run hparen _, ?_, rfl⟩⟩)
      · rw [hrest, hrun']
        exact (hrest'.append [')']).append ('(' :: run')
      · rw [hskip]
        exact eat?_run hclose rest'
    · exact ⟨run, hrun, fun rest' hrest => dotStep_eq_ok.mpr (.inr ⟨hpeek rest' ▸ hjoin, id, _,
        hread rest' hrest, .inr ⟨hrest.eat?_none (by decide) hparen, rfl, rfl⟩⟩)⟩

theorem step?_none_of_resembles {rest rest' : List Char} (h : Resembles rest rest') {pos : Nat}
    (hstep : step? chain ⟨pos, rest⟩ = none) : step? chain ⟨pos, rest'⟩ = none := by
  have hmark : ∀ {x : Char}, Text.isBlank x = false → peek ⟨pos, rest⟩ ≠ some x →
      peek ⟨pos, rest'⟩ ≠ some x := by
    intro x hx hpeek
    rw [← eat?_eq_none] at hpeek ⊢
    exact h.eat?_none hx hpeek
  rw [step?_eq_none] at hstep ⊢
  exact ⟨hmark (by decide) hstep.1, hmark (by decide) hstep.2⟩

theorem step?_takes {s : Step} (hs : s.isJoin = false)
    (h : step? chain c = some (.ok (s, after))) : ∃ run, c.rest = run ++ after.rest ∧
      ∀ rest', Resembles after.rest rest' →
        step? chain ⟨c.pos, run ++ rest'⟩ = some (.ok (s, ⟨after.pos, rest'⟩)) := by
  rcases step?_eq_ok.mp h with ⟨hdot, h⟩ | ⟨hbracket, k, hk, rfl⟩
  · obtain ⟨run, hrun, hread⟩ := dotStep_takes hs h c.pos
    rw [(eat?_eq_some (eat?_of_peek hdot)).2] at hread
    exact ⟨'.' :: run, by rw [rest_of_peek hdot, hrun]; rfl, fun rest' hrest =>
      step?_eq_ok.mpr (.inl ⟨rfl, hread rest' hrest⟩)⟩
  · obtain ⟨run, hrun, hread⟩ := key_takes hk
    have hpeek := peek_run hrun (key_length hbracket hk)
    exact ⟨run, hrun, fun rest' hrest => step?_eq_ok.mpr
      (.inr ⟨(hpeek rest').trans hbracket, k, hread rest' hrest, rfl⟩)⟩

theorem stepsOnto_takes (hadv : Advances chain) {bound : Nat} {out steps : List Step}
    (hplain : ∀ s ∈ steps, s.isJoin = false) (hbound : c.rest.length < bound)
    (h : stepsOnto chain bound out c = .ok (steps, after)) : ∃ run, c.rest = run ++ after.rest ∧
      ∀ rest', Resembles after.rest rest' → ∀ bound', (run ++ rest').length < bound' →
        stepsOnto chain bound' out ⟨c.pos, run ++ rest'⟩ = .ok (steps, ⟨after.pos, rest'⟩) := by
  induction bound generalizing out c with
  | zero => exact absurd hbound (Nat.not_lt_zero _)
  | succ bound ih =>
    rcases stepsOnto_eq_ok.mp h with ⟨hstep, hsteps, rfl⟩ | ⟨s, c', hstep, hlast, h⟩
    · refine ⟨[], rfl, fun rest' hrest bound' hbound' => ?_⟩
      obtain ⟨bound', rfl⟩ := Nat.exists_eq_succ_of_ne_zero (Nat.ne_zero_of_lt hbound')
      exact stepsOnto_eq_ok.mpr (.inl ⟨step?_none_of_resembles hrest hstep, hsteps, rfl⟩)
    · obtain ⟨more, hmore⟩ := stepsOnto_extends bound h
      have hs := hplain s (by simp [hmore])
      have hlength := (step?_advances hadv hstep).2
      obtain ⟨run, hrun, hread⟩ := step?_takes hs hstep
      have hshort : c'.rest.length < bound := by omega
      obtain ⟨run', hrun', hread'⟩ := ih hshort h
      refine ⟨run ++ run', by rw [hrun, hrun', List.append_assoc], ?_⟩
      intro rest' hrest bound' hbound'
      obtain ⟨bound', rfl⟩ := Nat.exists_eq_succ_of_ne_zero (Nat.ne_zero_of_lt hbound')
      have hread₁ := hread (run' ++ rest') (by rw [hrun']; exact hrest.append run')
      rw [List.append_assoc] at hbound' ⊢
      refine stepsOnto_eq_ok.mpr (.inr ⟨s, _, hread₁, hlast, hread' rest' hrest bound' ?_⟩)
      have hrunLength : 0 < run.length := by
        rw [hrun, List.length_append] at hlength
        omega
      rw [List.length_append] at hbound'
      omega

def castText (ty : Ty) : List Char := conversionText (some ⟨ty, .nowhere⟩)

section Cast

variable {ty : Ty} {tail : List Char}

theorem resembles_cast : Resembles ('}' :: tail) (castText ty ++ '}' :: tail) where
  first := by
    rintro x ⟨⟩
    exact .inl isBlank_space
  le := by
    rw [List.length_append]
    exact Nat.le_add_left _ _

theorem arithmetic_cast (ty : Ty) {joined : Bool} {a : Option Arithmetic}
    (h : arithmetic joined c.skipBlanks = .ok (a, after))
    (hafter : after.rest.dropWhile Text.isBlank = '}' :: tail) :
    ∃ run, c.rest = run ++ '}' :: tail ∧ ∃ after',
      arithmetic joined (skipBlanks ⟨c.pos, run ++ (castText ty ++ '}' :: tail)⟩) =
        .ok (a, after') ∧
      after'.rest.dropWhile Text.isBlank =
        (castText ty ++ '}' :: tail).dropWhile Text.isBlank := by
  rcases arithmetic_eq_ok.mp h with ⟨-, rfl, rfl⟩ | ⟨op, hop, n, hn, hjoined, rfl⟩
  · have hc : c.rest.dropWhile Text.isBlank = '}' :: tail := by
      rw [← hafter]
      exact (stops_dropWhile _ c.rest).dropWhile.symm
    have hrest : (skipBlanks ⟨c.pos, c.rest.takeWhile Text.isBlank ++
        (castText ty ++ '}' :: tail)⟩).rest = (castText ty ++ '}' :: tail).dropWhile Text.isBlank :=
      dropWhile_takeWhile_append ..
    refine ⟨_, eq_takeWhile_append hc, _, arithmetic_eq_ok.mpr (.inl ⟨?_, rfl, rfl⟩),
      by rw [hrest, (stops_dropWhile _ _).dropWhile]⟩
    rw [peek, hrest, Option.bind_eq_none_iff]
    exact (conversion_stops (some ⟨ty, .nowhere⟩) (.close (by decide))).2
  · obtain ⟨x, hx, hop⟩ := Option.bind_eq_some_iff.mp hop
    obtain ⟨lead, hlead, hskip⟩ := skipBlanks_run (rest_of_peek hx)
    obtain ⟨y, run, hrun, hread⟩ := number_before_blank hn
    obtain ⟨lead', hlead', hskip'⟩ := skipBlanks_run hrun
    refine ⟨lead ++ x :: (lead' ++ y :: (run ++ after.rest.takeWhile Text.isBlank)), ?_,
      ⟨after.pos, after.rest.takeWhile Text.isBlank ++ (castText ty ++ '}' :: tail)⟩, ?_,
      dropWhile_takeWhile_append ..⟩
    · have hblanks := eq_takeWhile_append hafter
      rw [hlead, hlead']
      simp [← hblanks]
    · have hnext := (eat?_eq_some (eat?_of_peek hx)).2
      have hread := hread _ (blanks_first after.rest (castText ty ++ '}' :: tail) (by
        rintro z ⟨⟩
        exact isBlank_space))
      simp only [List.append_assoc, List.cons_append, hskip]
      refine arithmetic_eq_ok.mpr (.inr ⟨op, hop, n, ?_, hjoined, rfl⟩)
      rw [next_cons, ← hnext, hskip', hread]

theorem conversion_eq_none {joined : Bool} (h : conversion joined c = .ok (none, after)) :
    c = after := by
  rcases conversion_eq_ok.mp h with ⟨-, -, rfl⟩ | ⟨word, -, id, -, ty, -, -, hv⟩
  · rfl
  · cases hv

variable (hty : castTarget? ty.text = some ty)
include hty

theorem chainLevel_cast (hchain : Local chain) (hadv : Advances chain) {t : Chain}
    (hplain : ∀ s ∈ t.steps, s.isJoin = false) (hcast : t.conversion = none)
    (h : chainLevel chain c = .ok (t, after))
    (hafter : after.rest.dropWhile Text.isBlank = '}' :: tail) :
    ∃ run, c.rest = run ++ '}' :: tail ∧ ∃ castSpan span after',
      chainLevel chain ⟨c.pos, run ++ (castText ty ++ '}' :: tail)⟩ =
        .ok (.mk t.head t.steps t.arithmetic (some ⟨ty, castSpan⟩) span, after') ∧
      after'.rest.dropWhile Text.isBlank = '}' :: tail := by
  obtain ⟨hd, c₁, hhead, steps, c₂, hsteps, a, c₃, ha, v, hv, rfl⟩ := chainLevel_eq_ok.mp h
  obtain rfl : v = none := hcast
  obtain rfl := conversion_eq_none hv
  have hjoined : steps.getLast?.any Step.isJoin = false := by
    cases hlast : steps.getLast? with
    | none => rfl
    | some s => exact hplain s (List.mem_of_getLast? hlast)
  have hafter₃ : c₃.rest.dropWhile Text.isBlank = '}' :: tail :=
    (stops_dropWhile _ c₃.rest).dropWhile.symm.trans hafter
  obtain ⟨run₁, hrun₁, hread₁⟩ := head_takes hchain hadv hhead
  obtain ⟨run₂, hrun₂, hread₂⟩ := stepsOnto_takes hadv hplain (Nat.lt_succ_self _) hsteps
  obtain ⟨run₃, hrun₃, after₃, hread₃, hbehind⟩ := arithmetic_cast ty ha hafter₃
  have hrest : Resembles c₂.rest (run₃ ++ (castText ty ++ '}' :: tail)) := by
    rw [hrun₃]
    exact resembles_cast.append run₃
  have hrest' : Resembles c₁.rest (run₂ ++ (run₃ ++ (castText ty ++ '}' :: tail))) := by
    rw [hrun₂]
    exact hrest.append run₂
  have hfree : steps.getLast?.any Step.isJoin → some (Conversion.mk ty .nowhere) = none := by
    simp [hjoined]
  obtain ⟨v', after₄, hread₄, hafter₄, hbare⟩ :=
    conversion_reads (by rintro v ⟨⟩; exact hty) hfree (.close (x := '}') (by decide)) hbehind
  obtain ⟨⟨ty', castSpan⟩, rfl, hbare⟩ := Option.map_eq_some_iff.mp hbare
  obtain rfl : ty' = ty := by simpa [Conversion.unplaced] using hbare
  refine ⟨run₁ ++ (run₂ ++ run₃), by simp [hrun₁, hrun₂, hrun₃], castSpan,
    after₄.spanFrom c.pos, after₄, ?_, ?_⟩
  · simp only [List.append_assoc]
    exact chainLevel_eq_ok.mpr ⟨hd, _, hread₁ _ hrest', steps, _,
      hread₂ _ hrest _ (Nat.lt_succ_self _), a, _, hread₃, _, hread₄, rfl⟩
  · rw [hafter₄]
    exact List.dropWhile_cons_of_neg (by decide)

theorem chain_cast {limit levels : Nat} {t : Chain} (hplain : ∀ s ∈ t.steps, s.isJoin = false)
    (hcast : t.conversion = none) (h : Parser.chain limit levels c = .ok (t, after))
    (hafter : after.rest.dropWhile Text.isBlank = '}' :: tail) :
    ∃ run, c.rest = run ++ '}' :: tail ∧ ∃ castSpan span after',
      Parser.chain limit levels ⟨c.pos, run ++ (castText ty ++ '}' :: tail)⟩ =
        .ok (.mk t.head t.steps t.arithmetic (some ⟨ty, castSpan⟩) span, after') ∧
      after'.rest.dropWhile Text.isBlank = '}' :: tail := by
  cases levels with
  | zero => cases h
  | succ levels =>
    exact chainLevel_cast hty (chain_local limit levels) (chain_advances limit levels) hplain hcast h
      hafter

end Cast

theorem alternativesOnto_extends {bound : Nat} {out cs : List Chain}
    (h : alternativesOnto chain bound out c = .ok (cs, after)) : ∃ more, cs = out.reverse ++ more := by
  induction bound generalizing out c with
  | zero =>
    cases h
    exact ⟨[], by simp⟩
  | succ bound ih =>
    rcases alternativesOnto_eq_ok.mp h with ⟨-, -, t, c', -, h⟩ | ⟨-, rfl, -⟩
    · obtain ⟨more, rfl⟩ := ih h
      exact ⟨t :: more, by simp⟩
    · exact ⟨[], by simp⟩

theorem expr_single {t : Chain} {span : Span} (h : expr chain c = .ok (.mk [t] none span, after)) :
    ∃ c', chain c = .ok (t, c') ∧ after = c'.skipBlanks := by
  obtain ⟨first, c₁, hfirst, cs, c₂, hcs, h⟩ := expr_eq_ok.mp h
  rcases h with ⟨-, -, l, -, he⟩ | ⟨-, he, rfl⟩
  · cases he
  · cases he
    rcases alternativesOnto_eq_ok.mp hcs with ⟨-, -, t', c', -, hcs⟩ | ⟨-, ht, rfl⟩
    · obtain ⟨more, hmore⟩ := alternativesOnto_extends hcs
      simp at hmore
    · cases ht
      exact ⟨c₁, hfirst, rfl⟩

theorem expr_of_chain {t : Chain} {c' : Cursor} {tail : List Char} (h : chain c = .ok (t, c'))
    (hafter : c'.rest.dropWhile Text.isBlank = '}' :: tail) :
    expr chain c = .ok (.mk [t] none (c'.skipBlanks.spanFrom c.pos), c'.skipBlanks) := by
  obtain ⟨stop, hskip⟩ := skipBlanks_to hafter
  refine expr_eq_ok.mpr ⟨t, c', h, [t], c'.skipBlanks, alternativesOnto_eq_ok.mpr (.inr ?_),
    .inr ⟨?_, rfl, rfl⟩⟩
  · simp [hskip, eat?_cons]
  · simp [hskip, defaultMark?, eat?_cons]

theorem expression_cast {ty : Ty} (hty : castTarget? ty.text = some ty) {limit levels start : Nat}
    {t : Chain} {span : Span} (hplain : ∀ s ∈ t.steps, s.isJoin = false)
    (hcast : t.conversion = none)
    (h : expression (Parser.chain limit levels) start c = .ok (.mk [t] none span, after)) :
    ∃ run, c.rest = run ++ '}' :: after.rest ∧ ∃ castSpan chainSpan span' after',
      expression (Parser.chain limit levels) start
          ⟨c.pos, run ++ (castText ty ++ '}' :: after.rest)⟩ =
        .ok (.mk [.mk t.head t.steps t.arithmetic (some ⟨ty, castSpan⟩) chainSpan] none span',
          after') ∧
      after'.rest = after.rest := by
  obtain ⟨-, hbrace, c', he, hclose⟩ := expression_eq_ok.mp h
  obtain ⟨c₁, hchain, rfl⟩ := expr_single he
  have hafter : c₁.rest.dropWhile Text.isBlank = '}' :: after.rest :=
    (stops_dropWhile _ c₁.rest).dropWhile.symm.trans (eat?_eq_some hclose).1
  obtain ⟨run, hrun, castSpan, chainSpan, after', hread, hafter'⟩ :=
    chain_cast hty hplain hcast hchain hafter
  cases run with
  | nil => exact absurd (congrArg List.head? hrun) (eat?_eq_none.mp hbrace)
  | cons x run =>
    obtain ⟨lead, hlead, hskip⟩ := skipBlanks_run hrun
    have hx : ¬x = '}' := by
      rintro rfl
      exact eat?_eq_none.mp hbrace (congrArg List.head? hrun)
    obtain ⟨stop, hstop⟩ := skipBlanks_to hafter'
    have hstops : Stops Text.isBlank ('}' :: after.rest) := stops_cons.mpr (by decide)
    refine ⟨lead ++ x :: run, by rw [hlead]; simp, castSpan, chainSpan,
      after'.skipBlanks.spanFrom c.skipBlanks.pos, ⟨stop + '}'.utf8Size, after.rest⟩, ?_, rfl⟩
    rw [List.append_assoc, List.cons_append, expression_eq_ok, hskip]
    refine ⟨rfl, by rw [eat?_cons, if_neg hx], _, expr_of_chain hread hafter', ?_⟩
    rw [hstop, skipBlanks_of_stops hstops, eat?_cons, if_pos rfl]

theorem segmentsOnto_eq_nil {bound start : Nat} {text : List Char} (hbound : c.rest.length < bound)
    (h : segmentsOnto chain bound start text [] c = .ok []) : text = [] ∧ c.rest = [] := by
  induction bound generalizing start text c with
  | zero => exact absurd hbound (Nat.not_lt_zero _)
  | succ bound ih =>
    obtain ⟨pos, rest⟩ := c
    unfold segmentsOnto at h
    dsimp only at h hbound
    split at h
    next =>
      refine ⟨?_, rfl⟩
      by_contra htext
      simp [textSegment_of_ne_nil htext] at h
    next rest =>
      simp only [List.length_cons] at hbound
      have hnil := ih (by simp only [advance, next_cons]; omega) h
      simp at hnil
    next rest =>
      obtain ⟨⟨e, after⟩, -, h⟩ := bind_eq_ok.mp h
      rw [segmentsOnto_out] at h
      obtain ⟨segs, -, hsegs⟩ := map_eq_ok.mp h
      simp at hsegs
    next x rest _ _ =>
      simp only [List.length_cons] at hbound
      have hnil := ih (by simp only [next_cons]; omega) h
      simp at hnil

theorem segmentsOnto_single (hadv : Advances chain) {bound : Nat} {pos : Nat} {rest : List Char}
    {e : Expr} (hbound : rest.length + 1 < bound) :
    segmentsOnto chain bound pos [] [] ⟨pos, '$' :: '{' :: rest⟩ = .ok [.expr e] ↔
      ∃ after, expression chain pos (advance ⟨pos, '$' :: '{' :: rest⟩ 2) = .ok (e, after) ∧
        after.rest = [] := by
  obtain ⟨bound, rfl⟩ := Nat.exists_eq_succ_of_ne_zero (Nat.ne_zero_of_lt hbound)
  constructor
  · intro h
    unfold segmentsOnto at h
    obtain ⟨⟨e', after⟩, he, h⟩ := bind_eq_ok.mp h
    have hlength : after.rest.length ≤ rest.length := (expression_advances hadv pos he).length_le
    dsimp only at h
    rw [segmentsOnto_out] at h
    obtain ⟨segs, hsegs, heq⟩ := map_eq_ok.mp h
    simp only [textSegment_nil, List.append_nil, List.reverse_cons, List.reverse_nil,
      List.nil_append, List.singleton_append, List.cons.injEq, Segment.expr.injEq] at heq
    obtain ⟨rfl, rfl⟩ := heq
    exact ⟨after, he, (segmentsOnto_eq_nil (by omega) hsegs).2⟩
  · rintro ⟨after, he, hafter⟩
    obtain ⟨bound, rfl⟩ := Nat.exists_eq_succ_of_ne_zero (show bound ≠ 0 by omega)
    rw [segmentsOnto_expr he, segmentsOnto, hafter]
    rfl

end Parser

theorem parse_single {s : String} (rest : List Char) (hs : s.toList = '$' :: '{' :: rest)
    {e : Expr} : parse s = .ok ⟨[.expr e]⟩ ↔ ∃ after,
      Parser.expression (Parser.chain maxNesting maxNesting) 0 ⟨2, rest⟩ = .ok (e, after) ∧
        after.rest = [] := by
  have hlength : rest.length + 1 < s.length + 1 := by
    rw [← String.length_toList, hs, List.length_cons, List.length_cons]
    omega
  rw [parse_eq_ok, Cursor.ofString, hs]
  exact Parser.segmentsOnto_single (Parser.chain_advances _ _) hlength

/-- A template of one chain without a join, with a cast put in before the brace. -/
theorem parse_cast (ty : Ty) (hty : castTarget? ty.text = some ty) {p : String} {t : Chain}
    {span : Span} (hjoin : t.join? = none) (hcast : t.conversion = none)
    (h : parse ("$\x7b" ++ p ++ "\x7d") = .ok ⟨[.expr (.mk [t] none span)]⟩) :
    ∃ castSpan chainSpan span', parse ("$\x7b" ++ p ++ " as " ++ ty.text ++ "\x7d") =
      .ok ⟨[.expr (.mk [.mk t.head t.steps t.arithmetic (some ⟨ty, castSpan⟩) chainSpan] none
        span')]⟩ := by
  have hfits : t.Within maxNesting := (parse_fits h).1.2.1 _ List.mem_cons_self
  obtain ⟨after, he, hend⟩ := (parse_single (p.toList ++ ['}']) (by simp)).mp h
  obtain ⟨run, hrun, castSpan, chainSpan, span', after', hread, hend'⟩ :=
    Parser.expression_cast hty (hfits.not_isJoin hjoin) hcast he
  rw [hend] at hrun hread
  obtain rfl : p.toList = run := (List.append_left_inj _).mp hrun
  refine ⟨castSpan, chainSpan, span', ?_⟩
  refine (parse_single (p.toList ++ (Parser.castText ty ++ ['}'])) ?_).mpr
    ⟨after', hread, hend'.trans hend⟩
  simp [Parser.castText, conversionText]

end PathTemplate.Template
