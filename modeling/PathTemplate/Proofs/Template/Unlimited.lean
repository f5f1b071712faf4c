import PathTemplate.Proofs.Template.Advancing

namespace PathTemplate.Template

theorem bind_congr_of_ok {ε α β : Type} {x : Except ε α} {f g : α → Except ε β}
    (h : ∀ a, x = .ok a → f a = g a) : (x >>= f) = (x >>= g) := by
  cases x with
  | error e => rfl
  | ok a => exact h a rfl

namespace Parser

open Cursor

/-- The readers do the same where fewer than `length` characters are left. -/
def SameWithin {α : Type} (length : Nat) (reader reader' : Reader α) : Prop :=
  ∀ c, c.rest.length < length → reader c = reader' c

variable {chain chain' : Reader Chain} {length : Nat} {c : Cursor}

theorem alternativesOnto_same (h : SameWithin length chain chain') (hadv : Advances chain)
    (bound : Nat) (out : List Chain) (hc : c.rest.length ≤ length) :
    alternativesOnto chain bound out c = alternativesOnto chain' bound out c := by
  induction bound generalizing out c with
  | zero => rfl
  | succ bound ih =>
    have hblanks := c.skipBlanks_reaches.length_le
    rw [alternativesOnto, alternativesOnto]
    cases hbar : c.skipBlanks.eat? '|' with
    | none => rfl
    | some bar =>
      have hlt := eat?_length hbar
      have hskip := bar.skipBlanks_reaches.length_le
      dsimp only
      rw [← h _ (by omega)]
      refine bind_congr_of_ok ?_
      rintro ⟨t, c'⟩ ht
      have := (hadv ht).length_le
      dsimp only
      exact ih _ (by omega)

theorem expr_same (h : SameWithin length chain chain') (hadv : Advances chain) :
    SameWithin length (expr chain) (expr chain') := by
  intro c hc
  rw [expr, expr, ← h c hc]
  refine bind_congr_of_ok ?_
  rintro ⟨first, c'⟩ hfirst
  have := (hadv hfirst).length_le
  dsimp only
  rw [alternativesOnto_same h hadv _ _ (by omega)]

theorem arg_same (h : SameWithin length chain chain') :
    SameWithin length (arg chain) (arg chain') := by
  intro c hc
  rw [arg, arg, h c hc]

theorem argsOnto_same (h : SameWithin length chain chain') (hadv : Advances chain) (bound : Nat)
    (out : List Arg) :
    SameWithin length (argsOnto chain bound out) (argsOnto chain' bound out) := by
  induction bound generalizing out with
  | zero =>
    intro c hc
    rfl
  | succ bound ih =>
    intro c hc
    rw [argsOnto, argsOnto, ← arg_same h c hc]
    refine bind_congr_of_ok ?_
    rintro ⟨a, c'⟩ ha
    have harg := ((arg_advances hadv ha).trans c'.skipBlanks_reaches).length_le
    dsimp only
    cases hcomma : c'.skipBlanks.eat? ',' with
    | none => cases c'.skipBlanks.eat? ')' <;> rfl
    | some comma =>
      have hlt := eat?_length hcomma
      have hskip := comma.skipBlanks_reaches.length_le
      exact ih _ _ (by omega)

theorem args_same (h : SameWithin length chain chain') (hadv : Advances chain) :
    SameWithin length (args chain) (args chain') := by
  intro c hc
  have hskip := c.skipBlanks_reaches.length_le
  rw [args, args, argsOnto_same h hadv _ _ _ (by omega)]

theorem joinItem_same (h : SameWithin length chain chain') (hadv : Advances chain) :
    SameWithin length (joinItem chain) (joinItem chain') := by
  intro c hc
  rw [joinItem, joinItem, expr_same h hadv c hc]

theorem joinItemsOnto_same (h : SameWithin length chain chain') (hadv : Advances chain)
    (bound : Nat) (out : List JoinItem) :
    SameWithin length (joinItemsOnto chain bound out) (joinItemsOnto chain' bound out) := by
  induction bound generalizing out with
  | zero =>
    intro c hc
    rfl
  | succ bound ih =>
    intro c hc
    have hblanks := c.skipBlanks_reaches.length_le
    rw [joinItemsOnto, joinItemsOnto, ← joinItem_same h hadv _ (by omega)]
    refine bind_congr_of_ok ?_
    rintro ⟨i, c'⟩ hi
    have hitem := ((joinItem_advances hadv hi).trans c'.skipBlanks_reaches).length_le
    dsimp only
    cases hcomma : c'.skipBlanks.eat? ',' with
    | none => cases c'.skipBlanks.eat? '}' <;> rfl
    | some comma =>
      have hlt := eat?_length hcomma
      exact ih _ _ (by omega)

theorem head_same (h : SameWithin length chain chain') (hadv : Advances chain)
    (hc : c.rest.length ≤ length) : head chain c = head chain' c := by
  rw [head, head]
  split
  · rfl
  · refine bind_congr_of_ok ?_
    rintro ⟨id, c'⟩ hid
    have hname := ident_length hid
    dsimp only
    cases hopen : c'.eat? '(' with
    | none => rfl
    | some inside =>
      have hlt := eat?_length hopen
      dsimp only
      rw [args_same h hadv inside (by omega)]

theorem dotStep_same (h : SameWithin length chain chain') (hadv : Advances chain) (start : Nat)
    (hc : c.rest.length ≤ length) : dotStep chain start c = dotStep chain' start c := by
  rw [dotStep, dotStep]
  split
  next hbrace =>
    have hlt := next_length hbrace
    rw [joinItemsOnto_same h hadv _ _ _ (by omega)]
  next => rfl

theorem step?_same (h : SameWithin length chain chain') (hadv : Advances chain)
    (hc : c.rest.length ≤ length) : step? chain c = step? chain' c := by
  have hnext := c.next_reaches.length_le
  unfold step?
  rw [dotStep_same h hadv _ (by omega)]

theorem stepsOnto_same (h : SameWithin length chain chain') (hadv : Advances chain) (bound : Nat)
    (out : List Step) (hc : c.rest.length ≤ length) :
    stepsOnto chain bound out c = stepsOnto chain' bound out c := by
  induction bound generalizing out c with
  | zero => rfl
  | succ bound ih =>
    rw [stepsOnto, stepsOnto, ← step?_same h hadv hc]
    cases hstep : step? chain c with
    | none => rfl
    | some step =>
      refine bind_congr_of_ok ?_
      rintro ⟨s, c'⟩ hs
      have hlt := (step?_advances hadv (hs ▸ hstep)).2
      dsimp only
      rw [ih (s :: out) (by omega)]

theorem chainLevel_same (h : SameWithin c.rest.length chain chain') (hadv : Advances chain) :
    chainLevel chain c = chainLevel chain' c := by
  rw [chainLevel, chainLevel, ← head_same h hadv Nat.le.refl]
  refine bind_congr_of_ok ?_
  rintro ⟨hd, c'⟩ hhead
  have := (head_advances hadv hhead).length_le
  dsimp only
  rw [stepsOnto_same h hadv _ _ this]

theorem chain_same (limit : Nat) {levels levels' : Nat} (h : c.rest.length < levels)
    (h' : c.rest.length < levels') :
    Parser.chain limit levels c = Parser.chain limit levels' c := by
  induction levels generalizing c levels' with
  | zero => exact absurd h (Nat.not_lt_zero _)
  | succ levels ih =>
    obtain ⟨levels', rfl⟩ := Nat.exists_eq_succ_of_ne_zero (Nat.ne_zero_of_lt h')
    refine chainLevel_same ?_ (chain_advances limit levels)
    intro c' hc'
    exact ih (by omega) (by omega)

/-- A chain that may nest to any depth. It nests less deep than it has characters, so that the error
for the last level is not met. -/
def unlimited : Reader Chain := fun c => Parser.chain 0 (c.rest.length + 1) c

theorem unlimited_advances : Advances unlimited := by
  intro c t after h
  exact chain_advances _ _ h

theorem unlimited_eq : unlimited = chainLevel unlimited := by
  funext c
  refine chainLevel_same ?_ (chain_advances 0 c.rest.length)
  intro c' hc'
  exact chain_same 0 hc' (Nat.lt_succ_self _)

end Parser

/-- Reads a template whose chains may nest to any depth. -/
def parseUnlimited (s : String) : Except ParseError Template := do
  return ⟨← Parser.segmentsOnto Parser.unlimited (s.length + 1) 0 [] [] (.ofString s)⟩

end PathTemplate.Template
