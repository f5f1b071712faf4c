import PathTemplate.Proofs.Template.Written
import PathTemplate.Proofs.Text.Offsets

namespace PathTemplate.Template

namespace Cursor

/-- The second place is the first one or a later one of the same text. -/
def Reaches (c c' : Cursor) : Prop :=
  ∃ run, c.rest = run ++ c'.rest ∧ c'.pos = c.pos + Text.byteLength run

namespace Reaches

variable {a b c : Cursor}

theorem refl (c : Cursor) : c.Reaches c := ⟨[], rfl, rfl⟩

theorem trans (hab : a.Reaches b) (hbc : b.Reaches c) : a.Reaches c := by
  obtain ⟨run, hrest, hpos⟩ := hab
  obtain ⟨more, hrest', hpos'⟩ := hbc
  refine ⟨run ++ more, by rw [hrest, hrest', List.append_assoc], ?_⟩
  rw [hpos', hpos, Text.byteLength_append, Nat.add_assoc]

theorem pos_le (h : a.Reaches b) : a.pos ≤ b.pos := by
  obtain ⟨run, -, hpos⟩ := h
  omega

theorem suffix (h : a.Reaches b) : b.rest <:+ a.rest := by
  obtain ⟨run, hrest, -⟩ := h
  exact ⟨run, hrest.symm⟩

theorem length_le (h : a.Reaches b) : b.rest.length ≤ a.rest.length := h.suffix.length_le

theorem pos_eq (h : a.Reaches b) {run : List Char} (hrun : a.rest = run ++ b.rest) :
    b.pos = a.pos + Text.byteLength run := by
  obtain ⟨run', hrun', hpos⟩ := h
  rw [hpos, (List.append_left_inj _).mp (hrun'.symm.trans hrun)]

end Reaches

variable {c after : Cursor}

theorem next_reaches (c : Cursor) : c.Reaches c.next := by
  obtain ⟨pos, rest⟩ := c
  cases rest with
  | nil => exact .refl _
  | cons x rest => exact ⟨[x], rfl, by simp⟩

theorem advance_reaches (c : Cursor) (n : Nat) : c.Reaches (c.advance n) := by
  induction n generalizing c with
  | zero => exact .refl c
  | succ n ih => exact c.next_reaches.trans (ih c.next)

theorem advance_run (run rest : List Char) (pos : Nat) :
    advance ⟨pos, run ++ rest⟩ run.length = ⟨pos + Text.byteLength run, rest⟩ := by
  induction run generalizing pos with
  | nil => rfl
  | cons x run ih =>
    rw [List.cons_append, List.length_cons, advance, next_cons, ih, Text.byteLength_cons,
      Nat.add_assoc]

theorem advance_of_takeWhile {p : Char → Bool} {run : List Char}
    (h : c.rest.takeWhile p = run) : c.advance run.length = (c.takeWhile p).2 := by
  have hsplit := c.rest.takeWhile_append_dropWhile (p := p)
  rw [h] at hsplit
  have hadvance := advance_run run (c.rest.dropWhile p) c.pos
  rw [hsplit] at hadvance
  rw [takeWhile, h]
  exact hadvance

theorem takeWhile_reaches (c : Cursor) (p : Char → Bool) : c.Reaches (c.takeWhile p).2 :=
  ⟨c.rest.takeWhile p, List.takeWhile_append_dropWhile.symm, rfl⟩

theorem skipBlanks_reaches (c : Cursor) : c.Reaches c.skipBlanks := c.takeWhile_reaches _

theorem eat?_eq_some {x : Char} (h : c.eat? x = some after) :
    c.rest = x :: after.rest ∧ after.pos = c.pos + x.utf8Size := by
  obtain ⟨pos, rest⟩ := c
  cases rest with
  | nil => simp [eat?, peek] at h
  | cons y rest =>
    rw [eat?_cons] at h
    split at h
    next hy =>
      cases h
      exact ⟨by rw [hy], by rw [hy]⟩
    next => cases h

theorem eat?_reaches {x : Char} (h : c.eat? x = some after) : c.Reaches after := by
  obtain ⟨hrest, hpos⟩ := eat?_eq_some h
  exact ⟨[x], hrest, by simp [hpos]⟩

theorem eat?_length {x : Char} (h : c.eat? x = some after) :
    after.rest.length < c.rest.length := by
  rw [(eat?_eq_some h).1]
  exact Nat.lt_succ_self _

theorem next_length {x : Char} (h : c.peek = some x) : c.next.rest.length < c.rest.length :=
  eat?_length (if_pos h)

theorem ident?_run {id : Ident} (h : c.ident? = some (id, after)) :
    c.rest = id.name.toList ++ after.rest ∧ after.pos = c.pos + Text.byteLength id.name.toList ∧
      id.span = after.spanFrom c.pos := by
  unfold ident? at h
  split at h
  · cases h
    simp only [String.toList_ofList, List.takeWhile_append_dropWhile, true_and]
  · cases h

theorem ident?_reaches {id : Ident} (h : c.ident? = some (id, after)) : c.Reaches after := by
  obtain ⟨hrest, hpos, -⟩ := ident?_run h
  exact ⟨_, hrest, hpos⟩

theorem ident_reaches {what : String} {id : Ident} (h : c.ident what = .ok (id, after)) :
    c.Reaches after :=
  ident?_reaches (ident_isName h)

theorem ident_length {what : String} {id : Ident} (h : c.ident what = .ok (id, after)) :
    after.rest.length < c.rest.length := by
  have hid := ident_isName h
  obtain ⟨x, tail, hx, -⟩ := (ident?_eq_some hid).1.cons
  rw [(ident?_run hid).1, hx, List.cons_append, List.length_cons, List.length_append]
  omega

theorem word?_reaches {w : String} (h : c.word? w = some after) : c.Reaches after := by
  unfold word? at h
  dsimp only at h
  split at h
  · split at h
    · cases h
    · cases h
      exact c.advance_reaches _
  · cases h

theorem bool?_reaches {b : Bool} (h : c.bool? = some (b, after)) : c.Reaches after := by
  have halone : ∀ (b' : Bool) {after' : Cursor}, aloneBefore b' after' = some (b, after) →
      after' = after := by
    intro b' after' h
    rw [aloneBefore_eq] at h
    split at h
    · cases h
    · cases h
      rfl
  unfold bool? at h
  dsimp only at h
  split at h
  next after' hword =>
    rw [← halone true h]
    exact word?_reaches hword
  next =>
    obtain ⟨after', hword, h⟩ := Option.bind_eq_some_iff.mp h
    rw [← halone false h]
    exact word?_reaches hword

/-- Quoted text ends behind its quote, or runs out at the end of the text. -/
theorem quotedOnto_reaches (quote : Char) (pos : Nat) (out cs : List Char) :
    match quotedOnto quote pos out cs with
    | .ok (_, after) => Reaches ⟨pos, cs⟩ after
    | .error stop => stop = pos + Text.byteLength cs := by
  fun_induction quotedOnto quote pos out cs with
  | case1 pos out => rfl
  | case2 pos out rest pos' => exact ⟨[quote], rfl, by simp [pos']⟩
  | case3 pos out pos' hne => simp [pos']
  | case4 pos out y rest pos' hne ih =>
    have hstep : Reaches ⟨pos, '\\' :: y :: rest⟩ ⟨pos' + y.utf8Size, rest⟩ :=
      ⟨['\\', y], rfl, by simp [pos', Nat.add_assoc]⟩
    split at ih
    next => exact hstep.trans ih
    next => simp [ih, pos', Nat.add_assoc]
  | case5 pos out x rest pos' hne hne' ih =>
    have hstep : Reaches ⟨pos, x :: rest⟩ ⟨pos', rest⟩ := ⟨[x], rfl, by simp [pos']⟩
    split at ih
    next => exact hstep.trans ih
    next => simp [ih, pos', Nat.add_assoc]

theorem quotedOnto_run {quote : Char} {pos : Nat} {out cs s : List Char}
    (h : quotedOnto quote pos out cs = .ok (s, after)) :
    ∃ run, cs = run ++ after.rest ∧ after.pos = pos + Text.byteLength run ∧ ∀ pos' rest',
      quotedOnto quote pos' out (run ++ rest') = .ok (s, ⟨pos' + Text.byteLength run, rest'⟩) := by
  fun_induction quotedOnto quote pos out cs with
  | case1 => cases h
  | case2 pos out rest pos' =>
    cases h
    refine ⟨[quote], rfl, by simp [pos'], fun _ rest' => ?_⟩
    simp [quotedOnto_cons]
  | case3 => cases h
  | case4 pos out y rest pos' hne ih =>
    obtain ⟨run, hrun, hpos, hread⟩ := ih h
    refine ⟨'\\' :: y :: run, by rw [hrun]; rfl, ?_, fun start rest' => ?_⟩
    · simp [hpos, pos', Nat.add_assoc]
    · rw [List.cons_append, quotedOnto_cons, if_neg hne, if_pos rfl]
      refine (hread _ rest').trans ?_
      simp [Nat.add_assoc]
  | case5 pos out x rest pos' hne hne' ih =>
    obtain ⟨run, hrun, hpos, hread⟩ := ih h
    refine ⟨x :: run, by rw [hrun]; rfl, ?_, fun start rest' => ?_⟩
    · simp [hpos, pos', Nat.add_assoc]
    · rw [List.cons_append, quotedOnto_cons, if_neg hne, if_neg hne']
      refine (hread _ rest').trans ?_
      simp [Nat.add_assoc]

theorem quoted_reaches {s : String} (h : c.quoted = .ok (s, after)) : c.Reaches after := by
  have hread := quotedOnto_reaches (c.peek.getD '"') c.next.pos [] c.next.rest
  unfold quoted at h
  dsimp only at h
  split at h
  next heq =>
    cases h
    rw [heq] at hread
    exact c.next_reaches.trans hread
  next => cases h

theorem sign_reaches (c : Cursor) : c.Reaches c.sign.2 := by
  unfold sign
  split
  · exact c.next_reaches
  · exact c.next_reaches
  · exact .refl c

theorem fraction?_reaches {digits : List Char} (h : c.fraction? = some (digits, after)) :
    c.Reaches after := by
  unfold fraction? at h
  split at h
  · cases h
    exact c.next_reaches.trans (c.next.takeWhile_reaches _)
  · cases h

theorem exponent?_reaches {negative : Bool} {digits : List Char}
    (h : c.exponent? = some (negative, digits, after)) : c.Reaches after := by
  unfold exponent? at h
  split at h
  · cases h
    exact c.next_reaches.trans (c.next.sign_reaches.trans (c.next.sign.2.takeWhile_reaches _))
  · cases h

def scanNumber (c : Cursor) : Option Operand × Cursor :=
  let (negative, c₁) := c.sign
  let (whole, c₂) := c₁.takeWhile Char.isDigit
  let (places, c₃) := (c₂.fraction?).getD ([], c₂)
  let floating (power : Int) : Operand :=
    .float (.ofDecimal negative (Numeric.natOfDigits (whole ++ places)) (power - places.length))
  match c₃.exponent? with
  | some (negative, digits, after) =>
    (if digits.isEmpty then none else some (floating (signed negative (powerOfDigits digits))),
      after)
  | none =>
    (if c₂.fraction?.isSome then some (floating 0)
      else (int64? negative (Numeric.natOfDigits whole)).map .int,
      c₃)

theorem number_eq (c : Cursor) : c.number =
    if !c.atNumber then c.expected "number"
    else valueBefore c.scanNumber.1 c.scanNumber.2
      (.invalidNumber (String.ofList (c.rest.take (c.rest.length - c.scanNumber.2.rest.length))))
      (c.scanNumber.2.spanFrom c.pos) := rfl

theorem number_eq_ok {n : Operand} :
    c.number = .ok (n, after) ↔ c.atNumber ∧ c.scanNumber = (some n, after) := by
  rw [number_eq]
  cases hat : c.atNumber with
  | false => simp
  | true =>
    rcases c.scanNumber with ⟨_ | m, c'⟩ <;> simp [valueBefore]

theorem scanNumber_reaches_from_whole (c : Cursor) :
    (c.sign.2.takeWhile Char.isDigit).2.Reaches c.scanNumber.2 := by
  have hplaces : (c.sign.2.takeWhile Char.isDigit).2.Reaches
      ((c.sign.2.takeWhile Char.isDigit).2.fraction?.getD
        ([], (c.sign.2.takeWhile Char.isDigit).2)).2 := by
    cases h : (c.sign.2.takeWhile Char.isDigit).2.fraction? with
    | none => exact .refl _
    | some r => exact fraction?_reaches (by exact h)
  unfold scanNumber
  dsimp only
  split
  next h => exact hplaces.trans (exponent?_reaches h)
  next => exact hplaces

theorem scanNumber_reaches (c : Cursor) : c.Reaches c.scanNumber.2 :=
  (c.sign_reaches.trans (c.sign.2.takeWhile_reaches _)).trans c.scanNumber_reaches_from_whole

theorem number_reaches {n : Operand} (h : c.number = .ok (n, after)) : c.Reaches after := by
  have hreach := c.scanNumber_reaches
  rwa [(number_eq_ok.mp h).2] at hreach

theorem literal_reaches {l : Literal} (h : c.literal = .ok (l, after)) : c.Reaches after := by
  rcases literal_eq_ok.mp h with ⟨-, s, hs, -⟩ | ⟨-, n, hn, -⟩
  · exact quoted_reaches hs
  · exact number_reaches hn

theorem defaultLiteral_reaches {l : Literal} (h : c.defaultLiteral = .ok (l, after)) :
    c.Reaches after := by
  rcases defaultLiteral_eq_ok.mp h with ⟨name, hname, id, hid, -⟩ | ⟨-, b, hbool, -⟩ | ⟨-, -, -, hl⟩
  · exact (eat?_reaches hname).trans (ident_reaches hid)
  · exact bool?_reaches hbool
  · exact literal_reaches hl

theorem keyBefore_reaches {start : Nat} {name : String} {id : Ident}
    (h : keyBefore start name c = .ok (id, after)) : c.Reaches after :=
  eat?_reaches (keyBefore_eq_ok.mp h).1

theorem key_reaches_next {id : Ident} (h : c.key = .ok (id, after)) : c.next.Reaches after := by
  have hinner := c.next.skipBlanks_reaches
  rcases key_eq_ok.mp h with ⟨-, name, c', hname, h⟩ | ⟨-, h⟩
  · exact hinner.trans ((quoted_reaches hname).trans (c'.skipBlanks_reaches.trans
      (keyBefore_reaches h)))
  · exact hinner.trans ((takeWhile_reaches _ _).trans (keyBefore_reaches h))

theorem key_reaches {id : Ident} (h : c.key = .ok (id, after)) : c.Reaches after :=
  c.next_reaches.trans (key_reaches_next h)

theorem key_length {id : Ident} (hbracket : c.peek = some '[') (h : c.key = .ok (id, after)) :
    after.rest.length < c.rest.length :=
  (key_reaches_next h).length_le.trans_lt (next_length hbracket)

end Cursor

/-- The reader goes ahead wherever it succeeds. -/
def Advances {α : Type} (reader : Reader α) : Prop :=
  ∀ {c a after}, reader c = .ok (a, after) → c.Reaches after

namespace Parser

open Cursor

variable {chain : Reader Chain} {c after : Cursor}

theorem alternativesOnto_advances (hchain : Advances chain) (bound : Nat) (out : List Chain) :
    Advances (alternativesOnto chain bound out) := by
  intro c cs after h
  induction bound generalizing out c with
  | zero =>
    cases h
    exact .refl _
  | succ bound ih =>
    rcases alternativesOnto_eq_ok.mp h with ⟨bar, hbar, t, c', ht, h⟩ | ⟨-, -, rfl⟩
    · exact c.skipBlanks_reaches.trans ((eat?_reaches hbar).trans
        (bar.skipBlanks_reaches.trans ((hchain ht).trans (ih _ h))))
    · exact c.skipBlanks_reaches

theorem defaultMark?_reaches (h : defaultMark? c = some after) : c.Reaches after := by
  obtain ⟨c', hfirst, hsecond⟩ := Option.bind_eq_some_iff.mp h
  exact (eat?_reaches hfirst).trans (eat?_reaches hsecond)

theorem expr_advances (hchain : Advances chain) : Advances (expr chain) := by
  intro c e after h
  obtain ⟨first, c₁, hfirst, cs, c₂, hcs, h⟩ := expr_eq_ok.mp h
  have halternatives := (hchain hfirst).trans (alternativesOnto_advances hchain _ _ hcs)
  rcases h with ⟨mark, hmark, l, hl, -⟩ | ⟨-, -, rfl⟩
  · exact halternatives.trans ((defaultMark?_reaches hmark).trans
      (mark.skipBlanks_reaches.trans (defaultLiteral_reaches hl)))
  · exact halternatives

theorem arg_advances (hchain : Advances chain) : Advances (arg chain) := by
  intro c a after h
  rcases arg_eq_ok.mp h with ⟨-, l, hl, -⟩ | ⟨-, b, hbool, -⟩ | ⟨-, -, t, ht, -⟩
  · exact literal_reaches hl
  · exact bool?_reaches hbool
  · exact hchain ht

theorem argsOnto_advances (hchain : Advances chain) (bound : Nat) (out : List Arg) :
    Advances (argsOnto chain bound out) := by
  intro c as after h
  induction bound generalizing out c with
  | zero => cases h
  | succ bound ih =>
    obtain ⟨a, c', ha, h⟩ := argsOnto_eq_ok.mp h
    have harg := (arg_advances hchain ha).trans c'.skipBlanks_reaches
    rcases h with ⟨comma, hcomma, h⟩ | ⟨-, hclose, -⟩
    · exact harg.trans ((eat?_reaches hcomma).trans (comma.skipBlanks_reaches.trans (ih _ h)))
    · exact harg.trans (eat?_reaches hclose)

theorem args_advances (hchain : Advances chain) : Advances (args chain) := by
  intro c as after h
  rcases args_eq_ok.mp h with ⟨hclose, -⟩ | ⟨-, h⟩
  · exact c.skipBlanks_reaches.trans (eat?_reaches hclose)
  · exact c.skipBlanks_reaches.trans (argsOnto_advances hchain _ _ h)

theorem joinItem_advances (hchain : Advances chain) : Advances (joinItem chain) := by
  intro c i after h
  rcases joinItem_eq_ok.mp h with ⟨-, s, hs, -⟩ | ⟨-, -, e, he, -⟩
  · exact quoted_reaches hs
  · exact expr_advances hchain he

theorem joinItemsOnto_advances (hchain : Advances chain) (bound : Nat) (out : List JoinItem) :
    Advances (joinItemsOnto chain bound out) := by
  intro c items after h
  induction bound generalizing out c with
  | zero => cases h
  | succ bound ih =>
    obtain ⟨i, c', hi, h⟩ := joinItemsOnto_eq_ok.mp h
    have hitem := c.skipBlanks_reaches.trans
      ((joinItem_advances hchain hi).trans c'.skipBlanks_reaches)
    rcases h with ⟨comma, hcomma, h⟩ | ⟨-, hclose, -⟩
    · exact hitem.trans ((eat?_reaches hcomma).trans (ih _ h))
    · exact hitem.trans (eat?_reaches hclose)

theorem head_advances (hchain : Advances chain) : Advances (head chain) := by
  intro c hd after h
  rcases head_eq_ok.mp h with ⟨-, k, hk, -⟩ | ⟨-, id, c', hid, h⟩
  · exact key_reaches hk
  · rcases h with ⟨inside, hopen, as, has, -⟩ | ⟨-, -, rfl⟩
    · exact (ident_reaches hid).trans ((eat?_reaches hopen).trans (args_advances hchain has))
    · exact ident_reaches hid

theorem dotStep_advances (hchain : Advances chain) (start : Nat) :
    Advances (dotStep chain start) := by
  intro c s after h
  rcases dotStep_eq_ok.mp h with ⟨-, items, hitems, -⟩ | ⟨-, id, c', hid, h⟩
  · exact c.next_reaches.trans (joinItemsOnto_advances hchain _ _ hitems)
  · rcases h with ⟨inside, hopen, hclose, -⟩ | ⟨-, -, rfl⟩
    · exact (ident_reaches hid).trans ((eat?_reaches hopen).trans
        (inside.skipBlanks_reaches.trans (eat?_reaches hclose)))
    · exact ident_reaches hid

theorem step?_advances (hchain : Advances chain) {s : Step}
    (h : step? chain c = some (.ok (s, after))) :
    c.Reaches after ∧ after.rest.length < c.rest.length := by
  rcases step?_eq_ok.mp h with ⟨hdot, h⟩ | ⟨hbracket, k, hk, -⟩
  · have hstep := dotStep_advances hchain _ h
    exact ⟨c.next_reaches.trans hstep, hstep.length_le.trans_lt (next_length hdot)⟩
  · exact ⟨key_reaches hk, key_length hbracket hk⟩

theorem stepsOnto_advances (hchain : Advances chain) (bound : Nat) (out : List Step) :
    Advances (stepsOnto chain bound out) := by
  intro c steps after h
  induction bound generalizing out c with
  | zero =>
    cases h
    exact .refl _
  | succ bound ih =>
    rcases stepsOnto_eq_ok.mp h with ⟨-, -, rfl⟩ | ⟨s, c', hstep, -, h⟩
    · exact .refl _
    · exact (step?_advances hchain hstep).1.trans (ih _ h)

theorem arithmetic_advances (joined : Bool) : Advances (arithmetic joined) := by
  intro c a after h
  rcases arithmetic_eq_ok.mp h with ⟨-, -, rfl⟩ | ⟨op, -, n, hn, -, -⟩
  · exact .refl _
  · exact c.next_reaches.trans (c.next.skipBlanks_reaches.trans (number_reaches hn))

theorem conversion_advances (joined : Bool) : Advances (conversion joined) := by
  intro c v after h
  rcases conversion_eq_ok.mp h with ⟨-, -, rfl⟩ | ⟨word, hword, id, hid, -, -, -, -⟩
  · exact .refl _
  · exact (word?_reaches hword).trans (word.skipBlanks_reaches.trans (ident_reaches hid))

theorem chainLevel_advances (hchain : Advances chain) : Advances (chainLevel chain) := by
  intro c t after h
  obtain ⟨hd, c₁, hhead, steps, c₂, hsteps, a, c₃, ha, v, hv, -⟩ := chainLevel_eq_ok.mp h
  exact (head_advances hchain hhead).trans ((stepsOnto_advances hchain _ _ hsteps).trans
    (c₂.skipBlanks_reaches.trans ((arithmetic_advances _ ha).trans
      (c₃.skipBlanks_reaches.trans (conversion_advances _ hv)))))

theorem chain_advances (limit levels : Nat) : Advances (Parser.chain limit levels) := by
  induction levels with
  | zero =>
    intro c t after h
    cases h
  | succ levels ih => exact chainLevel_advances ih

theorem expression_advances (hchain : Advances chain) (start : Nat) :
    Advances (expression chain start) := by
  intro c e after h
  obtain ⟨-, -, c', he, hclose⟩ := expression_eq_ok.mp h
  exact c.skipBlanks_reaches.trans ((expr_advances hchain he).trans
    (c'.skipBlanks_reaches.trans (eat?_reaches hclose)))

theorem expression_shortens (hchain : Advances chain) {start : Nat} {rest : List Char} {e : Expr}
    {after : Cursor} (hopen : c.rest = '$' :: '{' :: rest)
    (h : expression chain start (c.advance 2) = .ok (e, after)) :
    after.rest.length < c.rest.length := by
  have hle := (expression_advances hchain start h).length_le
  obtain ⟨pos, chars⟩ := c
  subst hopen
  simp only [advance, next_cons, List.length_cons] at hle ⊢
  omega

end Parser

end PathTemplate.Template
