import PathTemplate.Proofs.Template.RoundTrip
import PathTemplate.Proofs.Template.Respacing

namespace PathTemplate.Template

open Cursor

/-- With blanks put in the reader gives the same, its places left out. -/
def Steady {α β : Type} (reader : Reader α) (bare : α → β) : Prop :=
  ∀ {depth c c' a after}, c.Level (.code depth .start) c' → reader c = .ok (a, after) →
    ∃ a' after', reader c' = .ok (a', after') ∧ bare a' = bare a ∧
      after.Apart (.code depth .behind) after'

namespace Parser

variable {chain : Reader Chain} {depth : Nat} {c c' after : Cursor}

section Levels

variable (hchain : Steady chain Chain.unplaced)
include hchain

theorem arg_steady : Steady (arg chain) Arg.unplaced := by
  intro depth c c' a after hc h
  have hnot (hat : (c.atQuote || c.atNumber) = false) : (c'.atQuote || c'.atNumber) = false := by
    simp only [Bool.or_eq_false_iff] at hat ⊢
    exact ⟨hc.atQuote.trans hat.1, hc.atNumber_false hat.2⟩
  rcases arg_eq_ok.mp h with ⟨-, l, hl, rfl⟩ | ⟨hat, b, hbool, rfl⟩ | ⟨hat, hbool, t, ht, rfl⟩
  · obtain ⟨l', after', hl', hbare, hafter⟩ := hc.literal hl
    exact ⟨.literal l', after', arg_eq_ok.mpr (.inl ⟨literal_starts hl', l', hl', rfl⟩),
      by simp only [Arg.unplaced, hbare], hafter⟩
  · obtain ⟨after', hbool', hafter⟩ := hc.bool? (by simp) hbool
    exact ⟨_, after', arg_eq_ok.mpr (.inr (.inl ⟨hnot hat, b, hbool', rfl⟩)), rfl, hafter⟩
  · obtain ⟨t', after', ht', hbare, hafter⟩ := hchain hc ht
    exact ⟨.path t', after',
      arg_eq_ok.mpr (.inr (.inr ⟨hnot hat, hc.bool?_none (by simp) hbool, t', ht', rfl⟩)),
      by simp only [Arg.unplaced, hbare], hafter⟩

theorem argsOnto_steady {bound bound' : Nat} {out out' as : List Arg} (hle : bound ≤ bound')
    (hout : out'.map Arg.unplaced = out.map Arg.unplaced) (hc : c.Level (.code depth .start) c')
    (h : argsOnto chain bound out c = .ok (as, after)) :
    ∃ as' after', argsOnto chain bound' out' c' = .ok (as', after') ∧
      as'.map Arg.unplaced = as.map Arg.unplaced ∧ after.Apart (.code depth .behind) after' := by
  induction bound generalizing bound' out out' c c' with
  | zero => cases h
  | succ bound ih =>
    obtain ⟨bound', rfl⟩ : ∃ b, bound' = b + 1 := ⟨bound' - 1, by omega⟩
    obtain ⟨a, c₁, ha, h⟩ := argsOnto_eq_ok.mp h
    obtain ⟨a', c₁', ha', hbare, hc₁⟩ := arg_steady hchain hc ha
    have hskip := hc₁.skipBlanks
    have hmap : (a' :: out').map Arg.unplaced = (a :: out).map Arg.unplaced := by
      rw [List.map_cons, List.map_cons, hbare, hout]
    rcases h with ⟨comma, hcomma, h⟩ | ⟨hcomma, hclose, rfl⟩
    · obtain ⟨hpeek, rfl⟩ := eat?_next hcomma
      have hnext := hskip.next hpeek (by decide) (by simp) (by simp)
      obtain ⟨as', after', hread, has, hafter⟩ :=
        ih (Nat.le_of_succ_le_succ hle) hmap hnext.skipBlanks h
      exact ⟨as', after', argsOnto_eq_ok.mpr ⟨a', c₁', ha',
        .inl ⟨_, eat?_of_peek (hskip.peek.trans hpeek), hread⟩⟩, has, hafter⟩
    · obtain ⟨hpeek, rfl⟩ := eat?_next hclose
      refine ⟨_, c₁'.skipBlanks.next, argsOnto_eq_ok.mpr ⟨a', c₁', ha', .inr
        ⟨hskip.eat?_none hcomma, eat?_of_peek (hskip.peek.trans hpeek), rfl⟩⟩, ?_,
        hskip.next hpeek (by decide) (by simp) (by simp)⟩
      rw [List.map_reverse, List.map_reverse, hmap]

theorem args_steady {as : List Arg} (hc : c.Apart (.code depth .start) c')
    (h : args chain c = .ok (as, after)) :
    ∃ as' after', args chain c' = .ok (as', after') ∧
      as'.map Arg.unplaced = as.map Arg.unplaced ∧ after.Apart (.code depth .behind) after' := by
  have hskip := hc.skipBlanks
  rcases args_eq_ok.mp h with ⟨hclose, rfl⟩ | ⟨hclose, h⟩
  · obtain ⟨hpeek, rfl⟩ := eat?_next hclose
    exact ⟨_, _, args_eq_ok.mpr (.inl ⟨eat?_of_peek (hskip.peek.trans hpeek), rfl⟩), rfl,
      hskip.next hpeek (by decide) (by simp) (by simp [Cursor.atNumber, hpeek])⟩
  · obtain ⟨as', after', hread, has, hafter⟩ :=
      argsOnto_steady hchain (Nat.succ_le_succ hskip.apart.length_le) rfl hskip h
    exact ⟨as', after', args_eq_ok.mpr (.inr ⟨hskip.eat?_none hclose, hread⟩), has, hafter⟩

omit hchain in
theorem defaultMark?_level (h : c.Level (.code depth .behind) c') :
    (defaultMark? c = none ∧ defaultMark? c' = none) ∨
      ∃ mark mark', defaultMark? c = some mark ∧ defaultMark? c' = some mark' ∧
        mark.Apart (.code depth .start) mark' := by
  unfold defaultMark?
  by_cases hfirst : c.peek = some '?'
  · rw [eat?_of_peek hfirst, eat?_of_peek (h.peek.trans hfirst), Option.bind_some, Option.bind_some]
    obtain ⟨run, rest', hrun, hrest, hrespaced⟩ := h.cut hfirst
    rw [cut_question] at hrun hrespaced
    by_cases hsecond : c.next.rest.head? = some '?'
    · have hnext := rest_of_peek hsecond
      rw [hnext] at hrun hrespaced
      obtain rfl : ['?'] = run := (List.append_left_inj _).mp hrun
      have hsecond' : c'.next.peek = some '?' := by rw [Cursor.peek, hrest]; rfl
      rw [eat?_of_peek hsecond, eat?_of_peek hsecond']
      refine .inr ⟨_, _, rfl, rfl, ?_⟩
      have hnext' := rest_of_peek hsecond'
      rw [hrest] at hnext'
      rw [Apart, ← List.tail_eq_of_cons_eq hnext']
      exact hrespaced
    · rw [if_neg hsecond] at hrun hrespaced
      obtain rfl : run = [] := by simpa using hrun
      refine .inl ⟨eat?_eq_none.mpr hsecond, eat?_eq_none.mpr fun hsecond' => hsecond ?_⟩
      rw [Cursor.peek, hrest, List.nil_append] at hsecond'
      have hstops : Stops Text.isBlank rest' := by
        intro y hy
        rw [hsecond'] at hy
        cases hy
        decide
      exact (hrespaced.head?_eq hstops).symm.trans hsecond'
  · have hnone := eat?_eq_none.mpr hfirst
    rw [hnone, h.eat?_none hnone]
    exact .inl ⟨rfl, rfl⟩

variable (hadv : Advances chain)
include hadv

theorem alternativesOnto_steady {bound bound' : Nat} {out out' cs : List Chain}
    (hbound : c.rest.length < bound) (hle : bound ≤ bound')
    (hout : out'.map Chain.unplaced = out.map Chain.unplaced)
    (hc : c.Apart (.code depth .behind) c')
    (h : alternativesOnto chain bound out c = .ok (cs, after)) :
    ∃ cs' after', alternativesOnto chain bound' out' c' = .ok (cs', after') ∧
      cs'.map Chain.unplaced = cs.map Chain.unplaced ∧
      after.Level (.code depth .behind) after' := by
  induction bound generalizing bound' out out' c c' with
  | zero => exact absurd hbound (Nat.not_lt_zero _)
  | succ bound ih =>
    obtain ⟨bound', rfl⟩ : ∃ b, bound' = b + 1 := ⟨bound' - 1, by omega⟩
    have hskip := hc.skipBlanks
    rcases alternativesOnto_eq_ok.mp h with ⟨bar, hbar, t, c₁, ht, h⟩ | ⟨hbar, rfl, rfl⟩
    · obtain ⟨hpeek, rfl⟩ := eat?_next hbar
      have hnext := hskip.next hpeek (by decide) (by simp) (by simp)
      obtain ⟨t', c₁', ht', hbare, hafter⟩ := hchain hnext.skipBlanks ht
      have hlength : c₁.rest.length < bound := by
        have := c.skipBlanks_reaches.length_le
        have := eat?_length hbar
        have := (c.skipBlanks.next.skipBlanks_reaches.trans (hadv ht)).length_le
        omega
      have hmap : (t' :: out').map Chain.unplaced = (t :: out).map Chain.unplaced := by
        rw [List.map_cons, List.map_cons, hbare, hout]
      obtain ⟨cs', after', hread, hcs, hlevel⟩ :=
        ih hlength (Nat.le_of_succ_le_succ hle) hmap hafter h
      exact ⟨cs', after', alternativesOnto_eq_ok.mpr
        (.inl ⟨_, eat?_of_peek (hskip.peek.trans hpeek), t', c₁', ht', hread⟩), hcs, hlevel⟩
    · exact ⟨_, _, alternativesOnto_eq_ok.mpr (.inr ⟨hskip.eat?_none hbar, rfl, rfl⟩),
        by rw [List.map_reverse, List.map_reverse, hout], hskip⟩

theorem expr_steady : Steady (expr chain) Expr.unplaced := by
  intro depth c c' e after hc h
  obtain ⟨first, c₁, hfirst, cs, c₂, hcs, h⟩ := expr_eq_ok.mp h
  obtain ⟨first', c₁', hfirst', hbare, hc₁⟩ := hchain hc hfirst
  have hout : [first'].map Chain.unplaced = [first].map Chain.unplaced := congrArg ([·]) hbare
  obtain ⟨cs', c₂', hcs', hbares, hc₂⟩ := alternativesOnto_steady hchain hadv
    (Nat.lt_succ_self _) (Nat.succ_le_succ hc₁.length_le) hout hc₁ hcs
  rcases defaultMark?_level hc₂ with ⟨hmark, hmark'⟩ | ⟨mark, mark', hmark, hmark', hafter⟩
  · rcases h with ⟨mark, hsome, -⟩ | ⟨-, rfl, rfl⟩
    · simp [hmark] at hsome
    · refine ⟨_, c₂', expr_eq_ok.mpr
        ⟨first', c₁', hfirst', cs', c₂', hcs', .inr ⟨hmark', rfl, rfl⟩⟩, ?_, hc₂.apart⟩
      simp only [Expr.unplaced, Chain.unplacedAll_eq, hbares]
  · rcases h with ⟨mark₁, hsome, l, hl, rfl⟩ | ⟨hnone, -⟩
    · obtain rfl : mark = mark₁ := by simpa [hmark] using hsome
      obtain ⟨l', after', hl', hliteral, hafter'⟩ := hafter.skipBlanks.defaultLiteral hl
      refine ⟨_, after', expr_eq_ok.mpr ⟨first', c₁', hfirst', cs', c₂', hcs',
        .inl ⟨mark', hmark', l', hl', rfl⟩⟩, ?_, hafter'⟩
      simp only [Expr.unplaced, Chain.unplacedAll_eq, hbares, Option.map_some, hliteral]
    · simp [hmark] at hnone

theorem joinItem_steady : Steady (joinItem chain) JoinItem.unplaced := by
  intro depth c c' i after hc h
  rcases joinItem_eq_ok.mp h with ⟨hat, s, hs, rfl⟩ | ⟨hat, hpath, e, he, rfl⟩
  · obtain ⟨after', hs', hafter⟩ := hc.quoted hs hat
    exact ⟨_, after', joinItem_eq_ok.mpr (.inl ⟨hc.atQuote.trans hat, s, hs', rfl⟩), rfl, hafter⟩
  · obtain ⟨e', after', he', hbare, hafter⟩ := expr_steady hchain hadv hc he
    refine ⟨.expr e', after', ?_, by simp only [JoinItem.unplaced, hbare], hafter⟩
    rw [joinItem_eq_ok, hc.atQuote, hc.atName, hc.peek]
    exact .inr ⟨hat, hpath, e', he', rfl⟩

theorem joinItemsOnto_steady {bound bound' : Nat} {out out' items : List JoinItem}
    (hle : bound ≤ bound') (hout : out'.map JoinItem.unplaced = out.map JoinItem.unplaced)
    (hc : c.Apart (.code (depth + 1) .start) c')
    (h : joinItemsOnto chain bound out c = .ok (items, after)) :
    ∃ items' after', joinItemsOnto chain bound' out' c' = .ok (items', after') ∧
      items'.map JoinItem.unplaced = items.map JoinItem.unplaced ∧
      after.Apart (.code depth .behind) after' := by
  induction bound generalizing bound' out out' c c' with
  | zero => cases h
  | succ bound ih =>
    obtain ⟨bound', rfl⟩ : ∃ b, bound' = b + 1 := ⟨bound' - 1, by omega⟩
    obtain ⟨i, c₁, hi, h⟩ := joinItemsOnto_eq_ok.mp h
    obtain ⟨i', c₁', hi', hbare, hc₁⟩ := joinItem_steady hchain hadv hc.skipBlanks hi
    have hskip := hc₁.skipBlanks
    have hmap : (i' :: out').map JoinItem.unplaced = (i :: out).map JoinItem.unplaced := by
      rw [List.map_cons, List.map_cons, hbare, hout]
    rcases h with ⟨comma, hcomma, h⟩ | ⟨hcomma, hclose, rfl⟩
    · obtain ⟨hpeek, rfl⟩ := eat?_next hcomma
      have hnext := hskip.next hpeek (by decide) (by simp) (by simp)
      obtain ⟨items', after', hread, hitems, hafter⟩ :=
        ih (Nat.le_of_succ_le_succ hle) hmap hnext h
      exact ⟨items', after', joinItemsOnto_eq_ok.mpr ⟨i', c₁', hi',
        .inl ⟨_, eat?_of_peek (hskip.peek.trans hpeek), hread⟩⟩, hitems, hafter⟩
    · obtain ⟨hpeek, rfl⟩ := eat?_next hclose
      refine ⟨_, c₁'.skipBlanks.next, joinItemsOnto_eq_ok.mpr ⟨i', c₁', hi', .inr
        ⟨hskip.eat?_none hcomma, eat?_of_peek (hskip.peek.trans hpeek), rfl⟩⟩, ?_,
        hskip.next hpeek (by decide) (by simp) (by simp)⟩
      rw [List.map_reverse, List.map_reverse, hmap]

omit hadv in
theorem head_steady : Steady (head chain) Head.unplaced := by
  intro depth c c' hd after hc h
  rw [head_eq_ok] at h
  simp only [head_eq_ok, hc.peek]
  rcases h with ⟨hkey, k, hk, rfl⟩ | ⟨hkey, id, c₁, hid, h⟩
  · obtain ⟨k', after', hk', hbare, hafter⟩ := hc.key (by simp) hkey hk
    exact ⟨.key k', after', .inl ⟨hkey, k', hk', rfl⟩, by simp only [Head.unplaced, hbare], hafter⟩
  · obtain ⟨id', c₁', hid', hbare, hc₁⟩ := hc.ident (by simp) hid
    rcases h with ⟨inside, hinside, as, has, rfl⟩ | ⟨hinside, rfl, rfl⟩
    · obtain ⟨hpeek, rfl⟩ := eat?_next hinside
      have hlevel := hc₁.level_of_path hpeek (by decide)
      have hnext := hlevel.next hpeek (by decide) (by simp) (by simp)
      obtain ⟨as', after', has', hargs, hafter⟩ := args_steady hchain hnext has
      refine ⟨.call id' as', after', .inr ⟨hkey, id', c₁', hid',
        .inl ⟨_, eat?_of_peek (hlevel.peek.trans hpeek), as', has', rfl⟩⟩, ?_, hafter⟩
      simp only [Head.unplaced, Arg.unplacedAll_eq, hbare, hargs]
    · exact ⟨.name id', c₁', .inr ⟨hkey, id', c₁', hid',
        .inr ⟨hc₁.eat?_none (by decide) hinside, rfl, rfl⟩⟩,
        by simp only [Head.unplaced, hbare], hc₁⟩

theorem dotStep_steady {start : Nat} (start' : Nat) {s : Step} (hc : c.Apart (.code depth .tied) c')
    (h : dotStep chain start c = .ok (s, after)) :
    ∃ s' after', dotStep chain start' c' = .ok (s', after') ∧ s'.unplaced = s.unplaced ∧
      after.Apart (.code depth .behind) after' := by
  rcases dotStep_eq_ok.mp h with ⟨hjoin, items, hitems, rfl⟩ | ⟨hjoin, id, c₁, hid, h⟩
  · have hstops : Stops Text.isBlank c.rest := by
      rw [rest_of_peek hjoin, stops_cons]
      decide
    have hlevel := hc.level_of_tied hstops
    have hnext := hlevel.next hjoin (by decide) (by simp) (by simp)
    have hout : [].map JoinItem.unplaced = [].map JoinItem.unplaced := rfl
    obtain ⟨items', after', hitems', hbare, hafter⟩ := joinItemsOnto_steady hchain hadv
      (Nat.succ_le_succ hc.length_le) hout hnext hitems
    exact ⟨_, after', dotStep_eq_ok.mpr (.inl ⟨hlevel.peek.trans hjoin, items', hitems', rfl⟩),
      by simp only [Step.unplaced, JoinItem.unplacedAll_eq, hbare], hafter⟩
  · obtain ⟨id', c₁', hid', hbare, hc₁⟩ := Apart.ident hc hid
    have hjoin' := eat?_eq_none.mp (hc.eat?_none (by decide) (eat?_eq_none.mpr hjoin))
    rcases h with ⟨inside, hinside, hclose, rfl⟩ | ⟨hinside, rfl, rfl⟩
    · obtain ⟨hpeek, rfl⟩ := eat?_next hinside
      obtain ⟨hparen, rfl⟩ := eat?_next hclose
      have hlevel := hc₁.level_of_path hpeek (by decide)
      have hskip := (hlevel.next hpeek (by decide) (by simp) (by simp)).skipBlanks
      exact ⟨.call id', c₁'.next.skipBlanks.next, dotStep_eq_ok.mpr (.inr ⟨hjoin', id', c₁', hid',
        .inl ⟨_, eat?_of_peek (hlevel.peek.trans hpeek), eat?_of_peek (hskip.peek.trans hparen),
          rfl⟩⟩), by simp only [Step.unplaced, hbare],
        hskip.next hparen (by decide) (by simp) (by simp [Cursor.atNumber, hparen])⟩
    · exact ⟨.member id', c₁', dotStep_eq_ok.mpr (.inr ⟨hjoin', id', c₁', hid',
        .inr ⟨hc₁.eat?_none (by decide) hinside, rfl, rfl⟩⟩),
        by simp only [Step.unplaced, hbare], hc₁⟩

theorem step?_steady {s : Step} (hc : c.Apart (.code depth .behind) c')
    (h : step? chain c = some (.ok (s, after))) :
    ∃ s' after', step? chain c' = some (.ok (s', after')) ∧ s'.unplaced = s.unplaced ∧
      after.Apart (.code depth .behind) after' := by
  rcases step?_eq_ok.mp h with ⟨hdot, h⟩ | ⟨hbracket, k, hk, rfl⟩
  · have hlevel := hc.level_of_path hdot (by decide)
    have hnext := hlevel.next hdot (by decide) (by simp) (by simp)
    obtain ⟨s', after', hs', hbare, hafter⟩ := dotStep_steady hchain hadv c'.pos hnext h
    exact ⟨s', after', step?_eq_ok.mpr (.inl ⟨hlevel.peek.trans hdot, hs'⟩), hbare, hafter⟩
  · have hlevel := hc.level_of_path hbracket (by decide)
    obtain ⟨k', after', hk', hbare, hafter⟩ := hlevel.key (by simp) hbracket hk
    exact ⟨.key k', after', step?_eq_ok.mpr (.inr ⟨hlevel.peek.trans hbracket, k', hk', rfl⟩),
      by simp only [Step.unplaced, hbare], hafter⟩

omit hchain hadv in
theorem step?_absent (hc : c.Apart (.code depth .behind) c') (h : step? chain c = none) :
    step? chain c' = none := by
  rw [step?_eq_none, ← eat?_eq_none, ← eat?_eq_none] at h ⊢
  exact ⟨hc.eat?_none (by decide) h.1, hc.eat?_none (by decide) h.2⟩

theorem stepsOnto_steady {bound bound' : Nat} {out out' steps : List Step}
    (hbound : c.rest.length < bound) (hle : bound ≤ bound')
    (hout : out'.map Step.unplaced = out.map Step.unplaced)
    (hc : c.Apart (.code depth .behind) c')
    (h : stepsOnto chain bound out c = .ok (steps, after)) :
    ∃ steps' after', stepsOnto chain bound' out' c' = .ok (steps', after') ∧
      steps'.map Step.unplaced = steps.map Step.unplaced ∧
      after.Apart (.code depth .behind) after' := by
  induction bound generalizing bound' out out' c c' with
  | zero => exact absurd hbound (Nat.not_lt_zero _)
  | succ bound ih =>
    obtain ⟨bound', rfl⟩ : ∃ b, bound' = b + 1 := ⟨bound' - 1, by omega⟩
    have hreverse : out'.reverse.map Step.unplaced = out.reverse.map Step.unplaced := by
      rw [List.map_reverse, List.map_reverse, hout]
    rcases stepsOnto_eq_ok.mp h with ⟨hstep, rfl, rfl⟩ | ⟨s, c₁, hstep, hlast, h⟩
    · exact ⟨_, _, stepsOnto_eq_ok.mpr (.inl ⟨step?_absent hc hstep, rfl, rfl⟩), hreverse, hc⟩
    · obtain ⟨s', c₁', hstep', hbare, hc₁⟩ := step?_steady hchain hadv hc hstep
      have hjoined := joined_unplaced hreverse
      rw [List.getLast?_reverse, List.getLast?_reverse] at hjoined
      have hlength := (step?_advances hadv hstep).2
      have hmap : (s' :: out').map Step.unplaced = (s :: out).map Step.unplaced := by
        rw [List.map_cons, List.map_cons, hbare, hout]
      obtain ⟨steps', after', hread, hsteps, hafter⟩ :=
        ih (by omega) (Nat.le_of_succ_le_succ hle) hmap hc₁ h
      exact ⟨steps', after', stepsOnto_eq_ok.mpr
        (.inr ⟨s', c₁', hstep', hjoined.trans hlast, hread⟩), hsteps, hafter⟩

end Levels

theorem operator_mark {x : Char} {op : Operator} (h : Operator.ofSymbol? x = some op) (depth : Nat) :
    x ∈ marks ∧ Mode.afterMark depth x = .code depth .start := by
  unfold Operator.ofSymbol? at h
  split at h
  all_goals first | cases h; done | exact ⟨by decide, rfl⟩

theorem arithmetic_steady {joined : Bool} {a : Option Arithmetic}
    (hc : c.Level (.code depth .behind) c') (h : arithmetic joined c = .ok (a, after)) :
    ∃ a' after', arithmetic joined c' = .ok (a', after') ∧
      a'.map Arithmetic.unplaced = a.map Arithmetic.unplaced ∧
      after.Apart (.code depth .behind) after' := by
  rw [arithmetic_eq_ok] at h
  simp only [arithmetic_eq_ok, hc.peek]
  rcases h with ⟨hop, rfl, rfl⟩ | ⟨op, hop, n, hn, hjoined, rfl⟩
  · exact ⟨none, c', .inl ⟨hop, rfl, rfl⟩, rfl, hc.apart⟩
  · obtain ⟨x, hpeek, hx⟩ := Option.bind_eq_some_iff.mp hop
    obtain ⟨hmark, hafter⟩ := operator_mark hx depth
    have hnext := hc.next hpeek hmark (by simp) (by simp)
    rw [hafter] at hnext
    obtain ⟨after', hn', hafter'⟩ := hnext.skipBlanks.number hn
    exact ⟨_, after', .inr ⟨op, hop, n, hn', hjoined, rfl⟩, rfl, hafter'⟩

theorem conversion_steady {joined : Bool} {v : Option Conversion}
    (hc : c.Level (.code depth .behind) c') (h : conversion joined c = .ok (v, after)) :
    ∃ v' after', conversion joined c' = .ok (v', after') ∧
      v'.map Conversion.unplaced = v.map Conversion.unplaced ∧
      after.Apart (.code depth .behind) after' := by
  have has : ∀ x ∈ "as".toList, isNameChar x := by
    rw [← List.all_eq_true]
    decide
  have hfirst : "as".toList.head?.any isNameStart := by decide
  rcases conversion_eq_ok.mp h with ⟨hword, rfl, rfl⟩ |
    ⟨word, hword, id, hid, ty, hty, hjoined, rfl⟩
  · exact ⟨none, c', conversion_eq_ok.mpr
      (.inl ⟨hc.word?_none has hfirst (by simp) hword, rfl, rfl⟩), rfl, hc.apart⟩
  · obtain ⟨word', hword', hafter⟩ := hc.word? has hfirst (by simp) hword
    obtain ⟨id', after', hid', hbare, hafter'⟩ := hafter.skipBlanks.ident (by simp) hid
    rw [← Ident.name_eq hbare] at hty
    exact ⟨_, after', conversion_eq_ok.mpr
      (.inr ⟨word', hword', id', hid', ty, hty, hjoined, rfl⟩), rfl, hafter'⟩

theorem chainLevel_steady (hchain : Steady chain Chain.unplaced) (hadv : Advances chain) :
    Steady (chainLevel chain) Chain.unplaced := by
  intro depth c c' t after hc h
  obtain ⟨hd, c₁, hhead, steps, c₂, hsteps, a, c₃, ha, v, hv, rfl⟩ := chainLevel_eq_ok.mp h
  obtain ⟨hd', c₁', hhead', hbare, hc₁⟩ := head_steady hchain hc hhead
  have hout : [].map Step.unplaced = [].map Step.unplaced := rfl
  obtain ⟨steps', c₂', hsteps', hbares, hc₂⟩ := stepsOnto_steady hchain hadv (Nat.lt_succ_self _)
    (Nat.succ_le_succ hc₁.length_le) hout hc₁ hsteps
  obtain ⟨a', c₃', ha', harith, hc₃⟩ := arithmetic_steady hc₂.skipBlanks ha
  obtain ⟨v', after', hv', hconv, hafter⟩ := conversion_steady hc₃.skipBlanks hv
  rw [← joined_unplaced hbares] at ha' hv'
  refine ⟨_, after', chainLevel_eq_ok.mpr
    ⟨hd', c₁', hhead', steps', c₂', hsteps', a', c₃', ha', v', hv', rfl⟩, ?_, hafter⟩
  simp only [Chain.unplaced, Step.unplacedAll_eq, hbare, hbares, harith, hconv]

theorem chain_steady (limit levels : Nat) : Steady (Parser.chain limit levels) Chain.unplaced := by
  induction levels with
  | zero =>
    intro depth c c' t after _ h
    cases h
  | succ levels ih => exact chainLevel_steady ih (chain_advances limit levels)

theorem expression_steady (hchain : Steady chain Chain.unplaced) (hadv : Advances chain)
    {start : Nat} (start' : Nat) {e : Expr} (hc : c.Apart (.code 0 .start) c')
    (h : expression chain start c = .ok (e, after)) :
    ∃ e' after', expression chain start' c' = .ok (e', after') ∧ e'.unplaced = e.unplaced ∧
      after.Apart .text after' := by
  have hskip := hc.skipBlanks
  obtain ⟨hend, hempty, c₁, he, hclose⟩ := expression_eq_ok.mp h
  obtain ⟨e', c₁', he', hbare, hc₁⟩ := expr_steady hchain hadv hskip he
  have hskip₁ := hc₁.skipBlanks
  obtain ⟨hpeek, rfl⟩ := eat?_next hclose
  exact ⟨e', c₁'.skipBlanks.next, expression_eq_ok.mpr ⟨hskip.atEnd.trans hend,
    hskip.eat?_none hempty, c₁', he', eat?_of_peek (hskip₁.peek.trans hpeek)⟩, hbare,
    hskip₁.next hpeek (by decide) (by simp) (by simp)⟩

theorem text_inv {x : Char} {cs cs' : List Char} (h : Respaced Mode.IsLoose .text (x :: cs) cs') :
    ∃ run rest', cs = run ++ (cut .text x cs).1 ∧ cs' = x :: (run ++ rest') ∧
      Respaced Mode.IsLoose (cut .text x cs).2 (cut .text x cs).1 rest' := by
  cases h with
  | token run hrun h => exact ⟨run, _, hrun, rfl, h⟩
  | blank _ hgap => exact hgap.elim

theorem text_head? {cs cs' : List Char} (h : Respaced Mode.IsLoose .text cs cs') :
    cs'.head? = cs.head? := by
  cases h with
  | nil | token => rfl
  | blank _ hgap => exact hgap.elim

theorem segmentsOnto_steady (hchain : Steady chain Chain.unplaced) (hadv : Advances chain)
    {bound bound' start : Nat} (start' : Nat) {text : List Char} {out out' segs : List Segment}
    (hbound : c.rest.length < bound) (hle : bound ≤ bound')
    (hout : out'.map Segment.unplaced = out.map Segment.unplaced) (hc : c.Apart .text c')
    (h : segmentsOnto chain bound start text out c = .ok segs) :
    ∃ segs', segmentsOnto chain bound' start' text out' c' = .ok segs' ∧
      segs'.map Segment.unplaced = segs.map Segment.unplaced := by
  induction bound generalizing bound' start start' text out out' c c' with
  | zero => exact absurd hbound (Nat.not_lt_zero _)
  | succ bound ih =>
    obtain ⟨bound', rfl⟩ : ∃ b, bound' = b + 1 := ⟨bound' - 1, by omega⟩
    have hle := Nat.le_of_succ_le_succ hle
    obtain ⟨pos, rest⟩ := c
    obtain ⟨pos', rest'⟩ := c'
    have hpending : ∀ stop stop', (textSegment start' stop' text ++ out').map Segment.unplaced =
        (textSegment start stop text ++ out).map Segment.unplaced := by
      intro stop stop'
      rw [List.map_append, List.map_append, hout, textSegment_unplaced,
        textSegment_unplaced start]
    rcases segment_cases rest with rfl | ⟨x, cs, rfl, hpair⟩ | ⟨cs, rfl⟩ | ⟨cs, rfl⟩
    · cases hc with
      | nil =>
        cases h
        refine ⟨_, rfl, ?_⟩
        rw [List.map_reverse, List.map_reverse, hpending]
      | blank _ hgap => exact hgap.elim
    · obtain ⟨run, rest₁, hrun, rfl, hrest⟩ := text_inv hc
      rw [cut_char hpair] at hrun hrest
      obtain rfl : run = [] := by simpa using hrun
      rw [segmentsOnto_char hpair] at h
      rw [List.nil_append, segmentsOnto_char (by rwa [text_head? hrest])]
      exact ih start' (Nat.lt_of_succ_lt_succ hbound) hle hout (by exact hrest) h
    · -- A dollar sign that stands twice.
      obtain ⟨run, rest₁, hrun, rfl, hrest⟩ := text_inv hc
      obtain rfl : ['$'] = run := (List.append_left_inj _).mp hrun
      have hafter : (advance ⟨pos, '$' :: '$' :: cs⟩ 2).Apart .text
          (advance ⟨pos', '$' :: '$' :: rest₁⟩ 2) := hrest
      have hlength : (advance ⟨pos, '$' :: '$' :: cs⟩ 2).rest.length < bound :=
        Nat.lt_of_succ_lt (Nat.lt_of_succ_lt_succ hbound)
      obtain ⟨segs', hread, hsegs⟩ := ih start' hlength hle hout hafter h
      exact ⟨segs', hread, hsegs⟩
    · obtain ⟨run, rest₁, hrun, rfl, hrest⟩ := text_inv hc
      obtain rfl : ['{'] = run := (List.append_left_inj _).mp hrun
      have hinside : (advance ⟨pos, '$' :: '{' :: cs⟩ 2).Apart (.code 0 .start)
          (advance ⟨pos', '$' :: '{' :: rest₁⟩ 2) := hrest
      obtain ⟨⟨e, after⟩, he, h⟩ := bind_eq_ok.mp h
      obtain ⟨e', after', he', hbare, hafter⟩ :=
        expression_steady hchain hadv pos' hinside he
      have hlength : after.rest.length < bound :=
        Nat.lt_of_lt_of_le (expression_shortens hadv rfl he) (Nat.le_of_lt_succ hbound)
      have hmap : (.expr e' :: (textSegment start' pos' text ++ out')).map Segment.unplaced =
          (.expr e :: (textSegment start pos text ++ out)).map Segment.unplaced := by
        rw [List.map_cons, List.map_cons, hpending, Segment.unplaced, hbare]
        rfl
      obtain ⟨segs', hread, hsegs⟩ := ih after'.pos hlength hle hmap hafter h
      exact ⟨segs', bind_eq_ok.mpr ⟨_, he', hread⟩, hsegs⟩

end Parser

/-- Blanks that are put in at loose gaps of a template change nothing but the places. -/
theorem parse_respaced {s s' : String} {t : Template} (h : parse s = .ok t)
    (hs : Respaced Mode.IsLoose .text s.toList s'.toList) :
    ∃ t', parse s' = .ok t' ∧ t'.unplaced = t.unplaced := by
  have hlength := hs.length_le
  rw [String.length_toList, String.length_toList] at hlength
  have hout : [].map Segment.unplaced = [].map Segment.unplaced := rfl
  have hapart : (Cursor.ofString s).Apart .text (.ofString s') := hs
  obtain ⟨segs', hread, hsegs⟩ := Parser.segmentsOnto_steady
    (Parser.chain_steady maxNesting maxNesting) (Parser.chain_advances maxNesting maxNesting)
    0 (Nat.lt_succ_self s.toList.length) (Nat.succ_le_succ hlength) hout hapart (parse_eq_ok.mp h)
  exact ⟨⟨segs'⟩, parse_eq_ok.mpr hread, congrArg Template.mk hsegs⟩

theorem parse_respaced_spread : ∃ t t', parse "$\x7ba|b\x7d" = .ok t ∧
    parse "$\x7b a | b \x7d" = .ok t' ∧ t'.unplaced = t.unplaced := by
  have hread : (parse "$\x7ba|b\x7d").toBool := by decide +kernel
  obtain ⟨t, ht⟩ := eq_ok_of_toBool hread
  have hblank : Text.isBlank ' ' := by decide
  have hs : Respaced Mode.IsLoose .text "$\x7ba|b\x7d".toList "$\x7b a | b \x7d".toList := by
    have hfirst : "$\x7ba|b\x7d".toList = ['$', '{', 'a', '|', 'b', '}'] := by decide
    have hsecond : "$\x7b a | b \x7d".toList =
        ['$', '{', ' ', 'a', ' ', '|', ' ', 'b', ' ', '}'] := by decide
    have hbar : Mode.IsLoose (.code 0 .behind) ['|', 'b', '}'] := stops_cons.mpr (by decide)
    have hclose : Mode.IsLoose (.code 0 .behind) ['}'] := stops_cons.mpr (by decide)
    rw [hfirst, hsecond]
    exact .token ['{'] rfl <| .blank hblank trivial <| .token [] rfl <|
      .blank hblank hbar <| .token [] rfl <| .blank hblank trivial <|
      .token [] rfl <| .blank hblank hclose <| .token [] rfl <| .nil _
  obtain ⟨t', ht', hbare⟩ := parse_respaced ht hs
  exact ⟨t, t', ht, ht', hbare⟩

section Apart

variable {name : String} {blanks : List Char} {x : Char}

theorem stops_blanks (hne : blanks ≠ []) (hblanks : ∀ b ∈ blanks, Text.isBlank b)
    (rest : List Char) : Stops goesOn (blanks ++ rest) := by
  obtain ⟨b, bs, rfl⟩ := List.exists_cons_of_ne_nil hne
  have hb := hblanks b List.mem_cons_self
  have hpath : continuesPath b = false := by
    cases hpath : continuesPath b with
    | false => rfl
    | true => simp [not_isBlank_of_continuesPath hpath] at hb
  rw [List.cons_append, stops_cons, goesOn, isNameChar_of_isBlank hb, hpath]
  rfl

theorem first_of_continuesPath (h : continuesPath x) :
    Operator.ofSymbol? x = none ∧ isNameChar x = false ∧ x ≠ '|' ∧ x ≠ '?' ∧ x ≠ '}' := by
  simp only [continuesPath, Bool.or_eq_true, decide_eq_true_eq] at h
  rcases h with (rfl | rfl) | rfl <;> decide

theorem Parser.chainLevel_before_blanks (hname : IsName name) (hne : blanks ≠ [])
    (hblanks : ∀ b ∈ blanks, Text.isBlank b) (hx : continuesPath x) (below : Reader Chain)
    (rest : List Char) (pos : Nat) : ∃ t stop,
      chainLevel below ⟨pos, name.toList ++ (blanks ++ x :: rest)⟩ = .ok (t, ⟨stop, x :: rest⟩) := by
  have hstops := stops_blanks hne hblanks (x :: rest)
  have hfirst := not_isBlank_of_continuesPath hx
  obtain ⟨hop, hchar, -⟩ := first_of_continuesPath hx
  obtain ⟨span, stop, hident⟩ := ident_name hname hstops.name "field, method or function name" pos
  have hbracket : peek ⟨pos, name.toList ++ (blanks ++ x :: rest)⟩ ≠ some '[' := by
    obtain ⟨y, tail, hy, hstart⟩ := hname.cons
    rw [hy]
    rintro ⟨⟩
    exact absurd hstart (by decide)
  have hparen : eat? ⟨stop, blanks ++ x :: rest⟩ '(' = none := by
    rw [eat?_eq_none]
    exact fun h => absurd (hstops.path '(' h) (by decide)
  have hskip : ∃ stop', skipBlanks ⟨stop, blanks ++ x :: rest⟩ = ⟨stop', x :: rest⟩ := by
    refine skipBlanks_to ?_
    rw [List.dropWhile_append_of_pos hblanks, List.dropWhile_cons_of_neg (by simp [hfirst])]
  obtain ⟨stop', hskip⟩ := hskip
  have has : word? ⟨stop', x :: rest⟩ "as" = none := by
    have hchars : ∀ x ∈ "as".toList, isNameChar x := by
      rw [← List.all_eq_true]
      decide
    rw [word?_eq hchars, if_neg]
    rw [List.takeWhile_cons_of_neg (by simp [hchar])]
    decide
  have hsteps : ∀ bound, stepsOnto below (bound + 1) [] ⟨stop, blanks ++ x :: rest⟩ =
      .ok ([], ⟨stop, blanks ++ x :: rest⟩) := fun bound =>
    stepsOnto_eq_ok.mpr (.inl ⟨step?_none hstops.path stop, rfl, rfl⟩)
  refine ⟨_, stop', chainLevel_eq_ok.mpr ⟨.name ⟨name, span⟩, _,
    head_eq_ok.mpr (.inr ⟨hbracket, _, _, hident, .inr ⟨hparen, rfl, rfl⟩⟩), [], _, hsteps _,
    none, _, arithmetic_eq_ok.mpr (.inl ⟨?_, rfl, hskip⟩), none,
    conversion_eq_ok.mpr (.inl ⟨?_, rfl, ?_⟩), rfl⟩⟩
  · rw [hskip, peek_cons, Option.bind_some, hop]
  · rw [skipBlanks_of_stops (stops_cons.mpr hfirst), has]
  · exact skipBlanks_of_stops (stops_cons.mpr hfirst)

theorem Parser.expression_before_blanks (hname : IsName name) (hne : blanks ≠ [])
    (hblanks : ∀ b ∈ blanks, Text.isBlank b) (hx : continuesPath x) (below : Reader Chain)
    (start : Nat) (rest : List Char) (pos : Nat) (r : Expr × Cursor) :
    expression (chainLevel below) start ⟨pos, name.toList ++ (blanks ++ x :: rest)⟩ ≠ .ok r := by
  have hskip : skipBlanks ⟨pos, name.toList ++ (blanks ++ x :: rest)⟩ = ⟨pos, _⟩ :=
    skipBlanks_of_stops (hname.opens.append (blanks ++ x :: rest)).stops
  have hskip' : ∀ stop, skipBlanks ⟨stop, x :: rest⟩ = ⟨stop, x :: rest⟩ := fun stop =>
    skipBlanks_of_stops (stops_cons.mpr (not_isBlank_of_continuesPath hx))
  obtain ⟨-, -, hbar, hmark, hclose⟩ := first_of_continuesPath hx
  obtain ⟨t, stop, hread⟩ := chainLevel_before_blanks hname hne hblanks hx below rest pos
  have hnone : ∀ {y : Char}, x ≠ y → eat? ⟨stop, x :: rest⟩ y = none := fun hne => by
    rw [eat?_cons, if_neg hne]
  obtain ⟨e, after⟩ := r
  intro h
  obtain ⟨-, -, c', he, h⟩ := expression_eq_ok.mp h
  rw [hskip] at he
  obtain ⟨first, c₁, hfirst, cs, c₂, hcs, he⟩ := expr_eq_ok.mp he
  obtain ⟨rfl, rfl⟩ := Prod.mk.inj (Except.ok.inj (hread.symm.trans hfirst))
  rcases alternativesOnto_eq_ok.mp hcs with ⟨bar, hsome, -⟩ | ⟨-, -, rfl⟩
  · simp [hskip', hnone hbar] at hsome
  · rcases he with ⟨mark, hsome, -⟩ | ⟨-, -, rfl⟩
    · simp [hskip', defaultMark?, hnone hmark] at hsome
    · simp [hskip', hnone hclose] at h

/-- Blanks before a point, a parenthesis or a bracket that goes on with a path are not passed over:
no such template can be read. -/
theorem parse_before_blanks (hname : IsName name) (hne : blanks ≠ [])
    (hblanks : ∀ b ∈ blanks, Text.isBlank b) (hx : continuesPath x) (rest : List Char) :
    (parse (String.ofList ('$' :: '{' :: (name.toList ++ (blanks ++ x :: rest))))).toBool =
      false := by
  rw [Bool.eq_false_iff]
  intro hok
  obtain ⟨t, ht⟩ := eq_ok_of_toBool hok
  have hread := parse_eq_ok.mp ht
  rw [ofString, String.toList_ofList] at hread
  obtain ⟨r, he, -⟩ := bind_eq_ok.mp hread
  exact Parser.expression_before_blanks hname hne hblanks hx _ _ rest _ r he

theorem Parser.chainLevel_behind_point (hname : IsName name) (hne : blanks ≠ [])
    (hblanks : ∀ b ∈ blanks, Text.isBlank b) (below : Reader Chain) (rest : List Char) (pos : Nat)
    (r : Chain × Cursor) :
    chainLevel below ⟨pos, name.toList ++ '.' :: (blanks ++ rest)⟩ ≠ .ok r := by
  obtain ⟨b, bs, rfl⟩ := List.exists_cons_of_ne_nil hne
  have hb := hblanks b List.mem_cons_self
  have hpoint : Stops isNameChar ('.' :: (b :: bs ++ rest)) := stops_cons.mpr (by decide)
  obtain ⟨span, stop, hident⟩ := ident_name hname hpoint "field, method or function name" pos
  have hbracket : peek ⟨pos, name.toList ++ '.' :: (b :: bs ++ rest)⟩ ≠ some '[' := by
    obtain ⟨y, tail, hy, hstart⟩ := hname.cons
    rw [hy]
    rintro ⟨⟩
    exact absurd hstart (by decide)
  have hstep : ∀ r, dotStep below stop ⟨stop + '.'.utf8Size, b :: bs ++ rest⟩ ≠ .ok r := by
    rintro ⟨step, after⟩ h
    rcases dotStep_eq_ok.mp h with ⟨hjoin, -⟩ | ⟨-, id, c', hid, -⟩
    · obtain rfl : b = '{' := Option.some.inj hjoin
      exact absurd hb (by decide)
    · obtain ⟨y, hy, hstart⟩ := atName_iff.mp (atName_of_ident hid)
      obtain rfl : b = y := Option.some.inj hy
      simp [isNameStart_of_isBlank hb] at hstart
  obtain ⟨t, after⟩ := r
  intro h
  obtain ⟨hd, c₁, hhead, steps, c₂, hsteps, -⟩ := chainLevel_eq_ok.mp h
  rcases head_eq_ok.mp hhead with ⟨hkey, -⟩ | ⟨-, id, c', hid, hhead⟩
  · exact hbracket hkey
  · obtain ⟨rfl, rfl⟩ := Prod.mk.inj (Except.ok.inj (hident.symm.trans hid))
    rcases hhead with ⟨inside, hparen, -⟩ | ⟨-, -, rfl⟩
    · cases hparen
    · rcases stepsOnto_eq_ok.mp hsteps with ⟨hnone, -⟩ | ⟨s, c₃, hs, -⟩
      · exact (step?_eq_none.mp hnone).1 rfl
      · exact hstep _ (Option.some.inj hs)

theorem parse_behind_point (hname : IsName name) (hne : blanks ≠ [])
    (hblanks : ∀ b ∈ blanks, Text.isBlank b) (rest : List Char) :
    (parse (String.ofList ('$' :: '{' :: (name.toList ++ '.' :: (blanks ++ rest))))).toBool =
      false := by
  rw [Bool.eq_false_iff]
  intro hok
  obtain ⟨t, ht⟩ := eq_ok_of_toBool hok
  have hread := parse_eq_ok.mp ht
  rw [ofString, String.toList_ofList] at hread
  obtain ⟨⟨e, after⟩, he, -⟩ := bind_eq_ok.mp hread
  obtain ⟨pos, hcursor⟩ : ∃ pos, advance ⟨0, '$' :: '{' :: (name.toList ++ '.' :: (blanks ++ rest))⟩
      2 = ⟨pos, name.toList ++ '.' :: (blanks ++ rest)⟩ := ⟨_, rfl⟩
  rw [hcursor] at he
  obtain ⟨-, -, c', he, -⟩ := Parser.expression_eq_ok.mp he
  rw [skipBlanks_of_stops (hname.opens.append ('.' :: (blanks ++ rest))).stops] at he
  obtain ⟨first, c₁, hfirst, -⟩ := Parser.expr_eq_ok.mp he
  exact Parser.chainLevel_behind_point hname hne hblanks _ rest pos _ hfirst

/-- A blank before the point of `${user.name}` leaves no template. -/
theorem parse_respaced_not_everywhere : ¬∀ (s s' : String) (t : Template), parse s = .ok t →
    Respaced Mode.IsGap .text s.toList s'.toList →
      ∃ t', parse s' = .ok t' ∧ t'.unplaced = t.unplaced := by
  intro h
  have hread : (parse "$\x7buser.name\x7d").toBool := by decide +kernel
  obtain ⟨t, ht⟩ := eq_ok_of_toBool hread
  have hs : Respaced Mode.IsGap .text "$\x7buser.name\x7d".toList
      "$\x7buser .name\x7d".toList := by
    have hfirst : "$\x7buser.name\x7d".toList =
        ['$', '{', 'u', 's', 'e', 'r', '.', 'n', 'a', 'm', 'e', '}'] := by decide
    have hsecond : "$\x7buser .name\x7d".toList =
        ['$', '{', 'u', 's', 'e', 'r', ' ', '.', 'n', 'a', 'm', 'e', '}'] := by decide
    have hgap : Mode.IsGap (.code 0 .behind) ['.', 'n', 'a', 'm', 'e', '}'] := by
      rintro ⟨⟩
    rw [hfirst, hsecond]
    exact .token ['{'] rfl <| .token ['s', 'e', 'r'] rfl <| .blank (by decide) hgap <| .refl _ _ _
  obtain ⟨t', ht', -⟩ := h _ _ t ht hs
  have hname : IsName "user" := ⟨by decide, by
    rw [← List.all_eq_true]
    decide⟩
  have hblanks : ∀ b ∈ [' '], Text.isBlank b := by
    rw [← List.all_eq_true]
    decide
  have hpoint : continuesPath '.' := by decide
  have hfail :=
    parse_before_blanks hname (List.cons_ne_nil _ _) hblanks hpoint ['n', 'a', 'm', 'e', '}']
  rw [show String.ofList _ = "$\x7buser .name\x7d" by decide, ht'] at hfail
  cases hfail

end Apart

end PathTemplate.Template
