import PathTemplate.Proofs.Template.Advancing

/-!
How far readers look. What is read up to a closing mark that is not taken does not depend on what
stands behind the mark: no reader looks past it. So an expression, which ends at its closing brace,
stays the same whatever follows, and so do a key and the arguments of a call.
-/

namespace PathTemplate.Template

/-- What stands behind a closing mark, and what may stand there instead, which is no shorter. -/
structure Ending where
  mark : Char
  old : List Char
  new : List Char
  closes : mark ∈ [')', ']', '}']
  le : old.length ≤ new.length

namespace Ending

variable (more : Ending)

/-- The end of a text, with more behind it. -/
def extending (old more : List Char) : Ending where
  mark := '}'
  old := old
  new := old ++ more
  closes := by decide
  le := by
    rw [List.length_append]
    exact Nat.le_add_right _ _

theorem mark_cases : more.mark = ')' ∨ more.mark = ']' ∨ more.mark = '}' := by
  simpa using more.closes

theorem isBlank_mark : Text.isBlank more.mark = false := by
  rcases more.mark_cases with h | h | h <;> rw [h] <;> decide

theorem isNameChar_mark : Cursor.isNameChar more.mark = false := by
  rcases more.mark_cases with h | h | h <;> rw [h] <;> decide

theorem isDigit_mark : more.mark.isDigit = false := by
  rcases more.mark_cases with h | h | h <;> rw [h] <;> decide

end Ending

namespace Cursor

/-- The same place, with the other ending. -/
def followed (more : Ending) (c : Cursor) : Cursor :=
  ⟨c.pos, c.rest.take (c.rest.length - more.old.length) ++ more.new⟩

/-- The mark is still to come, with its old ending. -/
def Open (more : Ending) (c : Cursor) : Prop := more.mark :: more.old <:+ c.rest

variable {c after : Cursor} (more : Ending)

/-- The place comes behind the closing mark `x`, and the mark itself may be the one. -/
def ClosedBy (x : Char) (more : Ending) (after : Cursor) : Prop :=
  more.mark :: more.old <:+ x :: after.rest

theorem Reaches.open {more : Ending} (hr : c.Reaches after) (h : after.Open more) : c.Open more :=
  h.trans hr.suffix

theorem Open.closedBy {more : Ending} (h : c.Open more) (x : Char) : c.ClosedBy x more :=
  h.trans (List.suffix_cons x c.rest)

theorem ClosedBy.open {more : Ending} {x : Char} (h : after.ClosedBy x more)
    (hx : x :: after.rest <:+ c.rest) : c.Open more := h.trans hx

theorem followed_mk (pos : Nat) (cs : List Char) :
    followed more ⟨pos, cs ++ more.old⟩ = ⟨pos, cs ++ more.new⟩ := by
  simp [followed]

theorem Open.split {more : Ending} (h : c.Open more) : ∃ x cs, c.rest = x :: (cs ++ more.old) := by
  obtain ⟨cs, hcs⟩ := h
  cases cs with
  | nil => exact ⟨more.mark, [], hcs.symm⟩
  | cons x cs => exact ⟨x, cs ++ [more.mark], by simp [← hcs]⟩

theorem followed_cons (h : c.Open more) : ∃ x cs, c = ⟨c.pos, x :: (cs ++ more.old)⟩ ∧
    c.followed more = ⟨c.pos, x :: (cs ++ more.new)⟩ := by
  obtain ⟨x, cs, hrest⟩ := h.split
  obtain ⟨pos, rest⟩ := c
  obtain rfl : rest = x :: (cs ++ more.old) := hrest
  exact ⟨x, cs, rfl, followed_mk more pos (x :: cs)⟩

theorem peek_followed (h : c.Open more) : (c.followed more).peek = c.peek := by
  obtain ⟨x, cs, hc, hmore⟩ := followed_cons more h
  rw [hmore, hc]
  rfl

theorem next_followed (h : c.Open more) : (c.followed more).next = c.next.followed more := by
  obtain ⟨x, cs, hc, hmore⟩ := followed_cons more h
  rw [hmore, hc, next_cons, next_cons, followed_mk]

theorem Open.next {more : Ending} (h : c.Open more) (hx : c.peek ≠ some more.mark) :
    c.next.Open more := by
  obtain ⟨cs, hcs⟩ := h
  obtain ⟨pos, rest⟩ := c
  obtain rfl : cs ++ more.mark :: more.old = rest := hcs
  cases cs with
  | nil => exact absurd rfl hx
  | cons x cs => exact ⟨cs, rfl⟩

theorem Open.next_of_peek {more : Ending} (h : c.Open more) {x : Char} (hpeek : c.peek = some x)
    (hx : x ∉ [')', ']', '}']) : c.next.Open more := by
  refine h.next fun hmark => hx ?_
  rw [← Option.some.inj (hmark.symm.trans hpeek)]
  exact more.closes

theorem peekNth_followed (h : c.Open more) (hnext : c.next.Open more) :
    (c.followed more).peekNth 1 = c.peekNth 1 := by
  have hpeek := peek_followed more hnext
  obtain ⟨x, cs, hc, hmore⟩ := followed_cons more h
  rw [hc, next_cons, followed_mk] at hpeek
  rw [hmore, hc]
  simpa [peek, peekNth, ← List.head?_eq_getElem?] using hpeek

theorem eat?_followed (h : c.Open more) (x : Char) :
    (c.followed more).eat? x = (c.eat? x).map (followed more) := by
  rw [eat?, eat?, peek_followed more h, next_followed more h, apply_ite (Option.map _)]
  rfl

theorem eat?_followed_of_some {x : Char} (h : after.Open more) (heat : c.eat? x = some after) :
    (c.followed more).eat? x = some (after.followed more) := by
  rw [eat?_followed more ((eat?_reaches heat).open h), heat, Option.map_some]

theorem eat?_followed_of_none (h : c.Open more) {x : Char} (heat : c.eat? x = none) :
    (c.followed more).eat? x = none := by
  rw [eat?_followed more h, heat, Option.map_none]

theorem eat?_closes {x : Char} (heat : c.eat? x = some after) : x :: after.rest <:+ c.rest := by
  rw [(eat?_eq_some heat).1]

theorem eat?_followed_of_closedBy {x : Char} (h : after.ClosedBy x more)
    (heat : c.eat? x = some after) : (c.followed more).eat? x = some (after.followed more) := by
  rw [eat?_followed more (h.open (eat?_closes heat)), heat, Option.map_some]

theorem Open.eat {more : Ending} (h : c.Open more) {x : Char} (hx : x ∉ [')', ']', '}'])
    (heat : c.eat? x = some after) : after.Open more := by
  simp only [eat?, Option.ite_none_right_eq_some, Option.some.injEq] at heat
  exact heat.2 ▸ h.next_of_peek heat.1 hx

theorem takeWhile_stop {p : Char → Bool} {run rest : List Char} {x : Char} (hrun : ∀ y ∈ run, p y)
    (hx : ¬p x) (pos : Nat) : takeWhile ⟨pos, run ++ x :: rest⟩ p =
      (run, ⟨pos + Text.byteLength run, x :: rest⟩) := by
  rw [takeWhile_mk, List.takeWhile_append_of_pos hrun, List.dropWhile_append_of_pos hrun,
    List.takeWhile_cons_of_neg hx, List.dropWhile_cons_of_neg hx, List.append_nil]

theorem takeWhile_followed {p : Char → Bool} (h : (c.takeWhile p).2.Open more) :
    (c.followed more).takeWhile p = ((c.takeWhile p).1, (c.takeWhile p).2.followed more) := by
  obtain ⟨x, cs, hrest⟩ := h.split
  obtain ⟨pos, rest⟩ := c
  have hrest : rest.dropWhile p = x :: (cs ++ more.old) := hrest
  have hrun : ∀ y ∈ rest.takeWhile p, p y := fun y hy => List.mem_takeWhile_imp hy
  have hx : ¬p x := by
    have hhead := List.head?_dropWhile_not p rest
    rw [hrest] at hhead
    simpa using hhead
  have hsplit := rest.takeWhile_append_dropWhile (p := p)
  rw [hrest] at hsplit
  generalize rest.takeWhile p = run at hrun hsplit
  subst hsplit
  have hmore := followed_mk more pos (run ++ x :: cs)
  have hdrop := followed_mk more (pos + Text.byteLength run) (x :: cs)
  simp only [List.append_assoc, List.cons_append] at hmore hdrop
  rw [hmore, takeWhile_stop hrun hx, takeWhile_stop hrun hx, hdrop]

theorem Open.takeWhile {more : Ending} (h : c.Open more) {p : Char → Bool}
    (hp : p more.mark = false) : (c.takeWhile p).2.Open more := by
  obtain ⟨cs, hcs⟩ := h
  rw [Open, Cursor.takeWhile, ← hcs, List.dropWhile_append]
  split
  next => rw [List.dropWhile_cons_of_neg (by simp [hp])]
  next => exact List.suffix_append _ _

theorem takeWhile_followed_of_open (h : c.Open more) {p : Char → Bool}
    (hp : p more.mark = false) :
    (c.followed more).takeWhile p = ((c.takeWhile p).1, (c.takeWhile p).2.followed more) :=
  takeWhile_followed more (h.takeWhile hp)

theorem skipBlanks_followed (h : c.Open more) :
    (c.followed more).skipBlanks = c.skipBlanks.followed more := by
  rw [skipBlanks, takeWhile_followed_of_open more h more.isBlank_mark]
  rfl

theorem Open.skipBlanks {more : Ending} (h : c.Open more) : c.skipBlanks.Open more :=
  h.takeWhile more.isBlank_mark

theorem atName_followed (h : c.Open more) : (c.followed more).atName = c.atName := by
  rw [atName, peek_followed more h, atName]

theorem atQuote_followed (h : c.Open more) : (c.followed more).atQuote = c.atQuote := by
  rw [atQuote, peek_followed more h, atQuote]

theorem ident?_followed (h : c.Open more) :
    (c.followed more).ident? = c.ident?.map fun r => (r.1, r.2.followed more) := by
  unfold ident?
  rw [atName_followed more h, takeWhile_followed_of_open more h more.isNameChar_mark,
    apply_ite (Option.map _)]
  rfl

theorem ident_followed (h : c.Open more) {what : String} {id : Ident}
    (hid : c.ident what = .ok (id, after)) :
    (c.followed more).ident what = .ok (id, after.followed more) := by
  rw [ident, ident?_followed more h, ident_isName hid]
  rfl

theorem word?_eq_takeWhile {w : String} (hw : ∀ x ∈ w.toList, isNameChar x) (c : Cursor) :
    c.word? w = if (c.takeWhile isNameChar).1 = w.toList then some (c.takeWhile isNameChar).2
      else none := by
  rw [word?_eq hw]
  split
  next hrun =>
    rw [← String.length_toList, advance_of_takeWhile hrun]
    exact (if_pos hrun).symm
  next hrun => exact (if_neg hrun).symm

theorem word?_followed (h : c.Open more) {w : String} (hw : ∀ x ∈ w.toList, isNameChar x) :
    (c.followed more).word? w = (c.word? w).map (followed more) := by
  rw [word?_eq_takeWhile hw, word?_eq_takeWhile hw,
    takeWhile_followed_of_open more h more.isNameChar_mark, apply_ite (Option.map _)]
  rfl

theorem Open.word {more : Ending} (h : c.Open more) {w : String}
    (hw : ∀ x ∈ w.toList, isNameChar x) (hword : c.word? w = some after) : after.Open more := by
  rw [word?_eq_takeWhile hw, Option.ite_none_right_eq_some, Option.some.injEq] at hword
  exact hword.2 ▸ h.takeWhile more.isNameChar_mark

theorem bool?_followed (h : c.Open more) :
    (c.followed more).bool? = c.bool?.map fun r => (r.1, r.2.followed more) := by
  have halone : ∀ (b : Bool) {after : Cursor}, after.Open more →
      aloneBefore b (after.followed more) =
      (aloneBefore b after).map fun r => (r.1, r.2.followed more) := by
    intro b after hopen
    rw [aloneBefore_eq, aloneBefore_eq, peek_followed more hopen, apply_ite (Option.map _)]
    rfl
  have htrue := isNameChar_boolText true
  have hfalse := isNameChar_boolText false
  simp only [bool?, word?_followed more h htrue, word?_followed more h hfalse]
  cases hword : c.word? "true" with
  | some after => exact halone true (h.word htrue hword)
  | none =>
    cases hword : c.word? "false" with
    | some after => exact halone false (h.word hfalse hword)
    | none => rfl

theorem followed_append (h : after.Open more) (pos : Nat) (run : List Char) :
    followed more ⟨pos, run ++ after.rest⟩ = ⟨pos, run ++ (after.followed more).rest⟩ := by
  obtain ⟨x, cs, hc, hmore⟩ := followed_cons more h
  have hrun := followed_mk more pos (run ++ x :: cs)
  rw [hmore, hc]
  simpa using hrun

theorem quoted_followed {s : String} (hopen : after.Open more) (h : c.quoted = .ok (s, after)) :
    (c.followed more).quoted = .ok (s, after.followed more) := by
  have hc : c.Open more := (quoted_reaches h).open hopen
  unfold quoted at h ⊢
  rw [peek_followed more hc, next_followed more hc]
  dsimp only at h ⊢
  split at h
  next cs after' heq =>
    cases h
    obtain ⟨run, hrun, hpos, hread⟩ := quotedOnto_run heq
    have hnext := followed_append more hopen c.next.pos run
    rw [← hrun] at hnext
    simp only [hnext, hread, ← hpos]
    rfl
  next => cases h

theorem sign_followed (h : c.Open more) :
    (c.followed more).sign = (c.sign.1, c.sign.2.followed more) := by
  simp only [sign, peek_followed more h, next_followed more h]
  split <;> rfl

theorem Open.sign {more : Ending} (h : c.Open more) : c.sign.2.Open more := by
  unfold Cursor.sign
  split
  next hpeek => exact h.next_of_peek hpeek (by decide)
  next hpeek => exact h.next_of_peek hpeek (by decide)
  next => exact h

theorem fraction?_followed (h : c.Open more) :
    (c.followed more).fraction? = c.fraction?.map fun r => (r.1, r.2.followed more) := by
  unfold fraction?
  by_cases hpoint : c.peek = some '.'
  · have hnext := h.next_of_peek hpoint (by decide)
    rw [peek_followed more h, peekNth_followed more h hnext, next_followed more h,
      takeWhile_followed_of_open more hnext more.isDigit_mark, apply_ite (Option.map _)]
    rfl
  · simp [peek_followed more h, hpoint]

theorem Open.fraction {more : Ending} (h : c.Open more) {digits : List Char}
    (hf : c.fraction? = some (digits, after)) : after.Open more := by
  unfold fraction? at hf
  split at hf
  next hpoint =>
    cases hf
    simp only [Bool.and_eq_true, decide_eq_true_eq] at hpoint
    exact (h.next_of_peek hpoint.1 (by decide)).takeWhile more.isDigit_mark
  next => cases hf

theorem exponent?_followed (h : c.Open more) :
    (c.followed more).exponent? = c.exponent?.map fun r => (r.1, r.2.1, r.2.2.followed more) := by
  unfold exponent?
  by_cases hletter : c.peek = some 'e' ∨ c.peek = some 'E'
  · have hnext : c.next.Open more := by
      rcases hletter with hpeek | hpeek <;> exact h.next_of_peek hpeek (by decide)
    rw [peek_followed more h, next_followed more h, sign_followed more hnext,
      apply_ite (Option.map _)]
    dsimp only
    rw [takeWhile_followed_of_open more hnext.sign more.isDigit_mark]
    rfl
  · simp only [not_or] at hletter
    simp [peek_followed more h, hletter.1, hletter.2]

theorem scanNumber_followed (h : c.Open more) :
    (c.followed more).scanNumber = (c.scanNumber.1, c.scanNumber.2.followed more) := by
  have hplaces : ∀ {c : Cursor}, c.Open more →
      ((c.followed more).fraction?).getD ([], c.followed more) =
      ((c.fraction?.getD ([], c)).1, (c.fraction?.getD ([], c)).2.followed more) ∧
      (c.fraction?.getD ([], c)).2.Open more := by
    intro c hc
    rw [fraction?_followed more hc]
    cases hf : c.fraction? with
    | none => exact ⟨rfl, hc⟩
    | some r => exact ⟨rfl, hc.fraction hf⟩
  have hwhole := h.sign.takeWhile more.isDigit_mark
  obtain ⟨hgetD, hopen⟩ := hplaces hwhole
  have hsome := congrArg Option.isSome (fraction?_followed more hwhole)
  rw [Option.isSome_map] at hsome
  simp only [scanNumber, sign_followed more h,
    takeWhile_followed_of_open more h.sign more.isDigit_mark, hgetD, hsome,
    exponent?_followed more hopen]
  cases ((c.sign.2.takeWhile Char.isDigit).2.fraction?.getD
    ([], (c.sign.2.takeWhile Char.isDigit).2)).2.exponent? <;> rfl

theorem atNumber_followed (h : c.Open more) : (c.followed more).atNumber = c.atNumber := by
  have hpeek := peek_followed more h
  by_cases hmark : c.peek = some more.mark
  · rcases more.mark_cases with hx | hx | hx <;> simp [atNumber, hpeek, hmark, hx]
  · simp only [atNumber, hpeek, peekNth_followed more h (h.next hmark)]

end Cursor

/-- What the reader gives before a closing mark does not depend on what stands behind the mark. -/
def Local {α : Type} (reader : Reader α) : Prop :=
  ∀ {c a after} (more : Ending), reader c = .ok (a, after) → after.Open more →
    reader (c.followed more) = .ok (a, after.followed more)

namespace Cursor

variable {c after : Cursor} (more : Ending)

theorem number_local : Local number := by
  intro c n after more h hopen
  have hc := (number_reaches h).open hopen
  obtain ⟨hat, hscan⟩ := number_eq_ok.mp h
  exact number_eq_ok.mpr
    ⟨(atNumber_followed more hc).trans hat, by rw [scanNumber_followed more hc, hscan]⟩

theorem literal_local : Local literal := by
  intro c l after more h hopen
  have hquote := atQuote_followed more ((literal_reaches h).open hopen)
  rcases literal_eq_ok.mp h with ⟨hat, s, hs, hl⟩ | ⟨hat, n, hn, hl⟩
  · exact literal_eq_ok.mpr (.inl ⟨hquote.trans hat, s, quoted_followed more hopen hs, hl⟩)
  · exact literal_eq_ok.mpr (.inr ⟨hquote.trans hat, n, number_local more hn hopen, hl⟩)

theorem defaultLiteral_local : Local defaultLiteral := by
  intro c l after more h hopen
  have hc := (defaultLiteral_reaches h).open hopen
  rw [defaultLiteral_eq_ok, eat?_followed more hc, bool?_followed more hc,
    atQuote_followed more hc, atNumber_followed more hc]
  rcases defaultLiteral_eq_ok.mp h with ⟨name, hname, id, hid, hl⟩ | ⟨hname, b, hbool, hl⟩ |
    ⟨hname, hbool, hat, hl⟩
  · have hopen' : name.Open more := (ident_reaches hid).open hopen
    exact .inl ⟨_, by rw [hname]; rfl, id, ident_followed more hopen' hid, hl⟩
  · exact .inr (.inl ⟨by rw [hname]; rfl, b, by rw [hbool]; rfl, hl⟩)
  · exact .inr (.inr ⟨by rw [hname]; rfl, by rw [hbool]; rfl, hat, literal_local more hl hopen⟩)

theorem keyBefore_closes {start : Nat} {name : String} {id : Ident}
    (h : keyBefore start name c = .ok (id, after)) : ']' :: after.rest <:+ c.rest :=
  eat?_closes (keyBefore_eq_ok.mp h).1

theorem keyBefore_followed (hclosed : after.ClosedBy ']' more) {start : Nat} {name : String}
    {id : Ident} (h : keyBefore start name c = .ok (id, after)) :
    keyBefore start name (c.followed more) = .ok (id, after.followed more) := by
  obtain ⟨hclose, hname, hid⟩ := keyBefore_eq_ok.mp h
  exact keyBefore_eq_ok.mpr ⟨eat?_followed_of_closedBy more hclosed hclose, hname, hid⟩

theorem key_followed (hclosed : after.ClosedBy ']' more) {id : Ident}
    (h : c.key = .ok (id, after)) : (c.followed more).key = .ok (id, after.followed more) := by
  have hinner : c.next.skipBlanks.Open more → (c.followed more).next.skipBlanks =
      c.next.skipBlanks.followed more := by
    intro hinner
    have hnext := c.next.skipBlanks_reaches.open hinner
    rw [next_followed more (c.next_reaches.open hnext), skipBlanks_followed more hnext]
  rcases key_eq_ok.mp h with ⟨hat, name, c', hname, h⟩ | ⟨hat, h⟩
  · have hskip := c'.skipBlanks_reaches.open (hclosed.open (keyBefore_closes h))
    have hopen := (quoted_reaches hname).open hskip
    rw [key_eq_ok, hinner hopen, atQuote_followed more hopen]
    refine .inl ⟨hat, name, _, quoted_followed more hskip hname, ?_⟩
    rw [skipBlanks_followed more hskip]
    exact keyBefore_followed more hclosed h
  · have hbare := hclosed.open (keyBefore_closes h)
    have hopen := (takeWhile_reaches _ _).open hbare
    rw [key_eq_ok, hinner hopen, atQuote_followed more hopen, takeWhile_followed more hbare]
    exact .inr ⟨hat, keyBefore_followed more hclosed h⟩

theorem key_local : Local key := fun more h hopen => key_followed more (hopen.closedBy ']') h

end Cursor

namespace Parser

open Cursor

variable {chain : Reader Chain} {c after : Cursor} (more : Ending)

theorem defaultMark?_followed (h : c.Open more) :
    defaultMark? (c.followed more) = (defaultMark? c).map (followed more) := by
  simp only [defaultMark?, eat?_followed more h]
  cases heat : c.eat? '?' with
  | some after => exact eat?_followed more (h.eat (by decide) heat) '?'
  | none => rfl

theorem le_length_followed (h : c.Open more) :
    c.rest.length ≤ (c.followed more).rest.length := by
  obtain ⟨x, cs, hc, hmore⟩ := followed_cons more h
  have hle := more.le
  rw [hmore, hc]
  simp only [List.length_cons, List.length_append]
  omega

section Levels

variable (hchain : Local chain) (hadv : Advances chain)

include hchain hadv

-- With more text the bound on the rounds is larger, which makes no difference as every round takes
-- a character.
theorem alternativesOnto_local {bound bound' : Nat} {out cs : List Chain}
    (hbound : c.rest.length < bound) (hle : bound ≤ bound')
    (h : alternativesOnto chain bound out c = .ok (cs, after)) (hopen : after.Open more) :
    alternativesOnto chain bound' out (c.followed more) = .ok (cs, after.followed more) := by
  induction bound generalizing bound' out c with
  | zero => exact absurd hbound (Nat.not_lt_zero _)
  | succ bound ih =>
    obtain ⟨bound', rfl⟩ : ∃ b, bound' = b + 1 := ⟨bound' - 1, by omega⟩
    have hc := (alternativesOnto_advances hadv _ _ h).open hopen
    rw [alternativesOnto_eq_ok, skipBlanks_followed more hc]
    rcases alternativesOnto_eq_ok.mp h with ⟨bar, hbar, t, c', ht, h⟩ | ⟨hbar, hcs, rfl⟩
    · have hreach := bar.skipBlanks_reaches.trans (hadv ht)
      have hopen' := (alternativesOnto_advances hadv _ _ h).open hopen
      have hlength : c'.rest.length < bound := by
        have := c.skipBlanks_reaches.length_le
        have := eat?_length hbar
        have := hreach.length_le
        omega
      refine .inl ⟨_, eat?_followed_of_some more (hreach.open hopen') hbar, t, _, ?_,
        ih hlength (Nat.le_of_succ_le_succ hle) h⟩
      rw [skipBlanks_followed more (hreach.open hopen')]
      exact hchain more ht hopen'
    · exact .inr ⟨eat?_followed_of_none more hc.skipBlanks hbar, hcs, rfl⟩

theorem expr_local : Local (expr chain) := by
  intro c e after more h hopen
  obtain ⟨first, c₁, hfirst, cs, c₂, hcs, h⟩ := expr_eq_ok.mp h
  have hreach : c₂.Reaches after := by
    rcases h with ⟨mark, hmark, l, hl, -⟩ | ⟨-, -, rfl⟩
    · exact (defaultMark?_reaches hmark).trans
        (mark.skipBlanks_reaches.trans (defaultLiteral_reaches hl))
    · exact .refl _
  have hopen₂ := hreach.open hopen
  have hopen₁ := (alternativesOnto_advances hadv _ _ hcs).open hopen₂
  refine expr_eq_ok.mpr ⟨first, _, hchain more hfirst hopen₁, cs, _, alternativesOnto_local more
    hchain hadv (Nat.lt_succ_self _) (Nat.succ_le_succ (le_length_followed more hopen₁)) hcs hopen₂,
    ?_⟩
  rw [defaultMark?_followed more hopen₂]
  rcases h with ⟨mark, hmark, l, hl, he⟩ | ⟨hmark, he, rfl⟩
  · have hmark' := (mark.skipBlanks_reaches.trans (defaultLiteral_reaches hl)).open hopen
    refine .inl ⟨_, by rw [hmark]; rfl, l, ?_, he⟩
    rw [skipBlanks_followed more hmark']
    exact defaultLiteral_local more hl hopen
  · exact .inr ⟨by rw [hmark]; rfl, he, rfl⟩

theorem arg_local : Local (arg chain) := by
  intro c a after more h hopen
  have hc := (arg_advances hadv h).open hopen
  rw [arg_eq_ok, atQuote_followed more hc, atNumber_followed more hc, bool?_followed more hc]
  rcases arg_eq_ok.mp h with ⟨hat, l, hl, ha⟩ | ⟨hat, b, hbool, ha⟩ | ⟨hat, hbool, t, ht, ha⟩
  · exact .inl ⟨hat, l, literal_local more hl hopen, ha⟩
  · exact .inr (.inl ⟨hat, b, by rw [hbool]; rfl, ha⟩)
  · exact .inr (.inr ⟨hat, by rw [hbool]; rfl, t, hchain more ht hopen, ha⟩)

omit hchain in
theorem argsOnto_closes (bound : Nat) {out as : List Arg}
    (h : argsOnto chain bound out c = .ok (as, after)) : ')' :: after.rest <:+ c.rest := by
  induction bound generalizing out c with
  | zero => cases h
  | succ bound ih =>
    obtain ⟨a, c', ha, h⟩ := argsOnto_eq_ok.mp h
    have hreach := (arg_advances hadv ha).trans c'.skipBlanks_reaches
    rcases h with ⟨comma, hcomma, h⟩ | ⟨-, hclose, -⟩
    · have hcomma' := (eat?_reaches hcomma).trans comma.skipBlanks_reaches
      exact (ih h).trans (hreach.trans hcomma').suffix
    · exact (eat?_closes hclose).trans hreach.suffix

theorem argsOnto_followed {bound bound' : Nat} {out as : List Arg} (hle : bound ≤ bound')
    (hclosed : after.ClosedBy ')' more) (h : argsOnto chain bound out c = .ok (as, after)) :
    argsOnto chain bound' out (c.followed more) = .ok (as, after.followed more) := by
  induction bound generalizing bound' out c with
  | zero => cases h
  | succ bound ih =>
    obtain ⟨bound', rfl⟩ : ∃ b, bound' = b + 1 := ⟨bound' - 1, by omega⟩
    obtain ⟨a, c', ha, h⟩ := argsOnto_eq_ok.mp h
    rcases h with ⟨comma, hcomma, h⟩ | ⟨hcomma, hclose, has⟩
    · have hcomma' := comma.skipBlanks_reaches.open (hclosed.open (argsOnto_closes hadv _ h))
      have hopen := c'.skipBlanks_reaches.open ((eat?_reaches hcomma).open hcomma')
      refine argsOnto_eq_ok.mpr ⟨a, _, arg_local hchain hadv more ha hopen, .inl ?_⟩
      rw [skipBlanks_followed more hopen]
      refine ⟨_, eat?_followed_of_some more hcomma' hcomma, ?_⟩
      rw [skipBlanks_followed more hcomma']
      exact ih (Nat.le_of_succ_le_succ hle) h
    · have hskip := hclosed.open (eat?_closes hclose)
      have hopen := c'.skipBlanks_reaches.open hskip
      refine argsOnto_eq_ok.mpr ⟨a, _, arg_local hchain hadv more ha hopen, .inr ?_⟩
      rw [skipBlanks_followed more hopen]
      exact ⟨eat?_followed_of_none more hskip hcomma,
        eat?_followed_of_closedBy more hclosed hclose, has⟩

theorem args_followed (hclosed : after.ClosedBy ')' more) {as : List Arg}
    (h : args chain c = .ok (as, after)) :
    args chain (c.followed more) = .ok (as, after.followed more) := by
  rcases args_eq_ok.mp h with ⟨hclose, has⟩ | ⟨hclose, h⟩
  · have hskip := hclosed.open (eat?_closes hclose)
    rw [args_eq_ok, skipBlanks_followed more (c.skipBlanks_reaches.open hskip)]
    exact .inl ⟨eat?_followed_of_closedBy more hclosed hclose, has⟩
  · have hskip := hclosed.open (argsOnto_closes hadv _ h)
    rw [args_eq_ok, skipBlanks_followed more (c.skipBlanks_reaches.open hskip)]
    exact .inr ⟨eat?_followed_of_none more hskip hclose, argsOnto_followed more hchain hadv
      (Nat.succ_le_succ (le_length_followed more hskip)) hclosed h⟩

theorem args_local : Local (args chain) :=
  fun more h hopen => args_followed more hchain hadv (hopen.closedBy ')') h

theorem joinItem_local : Local (joinItem chain) := by
  intro c i after more h hopen
  have hc := (joinItem_advances hadv h).open hopen
  rw [joinItem_eq_ok, atQuote_followed more hc, atName_followed more hc, peek_followed more hc]
  rcases joinItem_eq_ok.mp h with ⟨hat, s, hs, hi⟩ | ⟨hat, hpath, e, he, hi⟩
  · exact .inl ⟨hat, s, quoted_followed more hopen hs, hi⟩
  · exact .inr ⟨hat, hpath, e, expr_local hchain hadv more he hopen, hi⟩

theorem joinItemsOnto_local {bound bound' : Nat} {out items : List JoinItem} (hle : bound ≤ bound')
    (h : joinItemsOnto chain bound out c = .ok (items, after)) (hopen : after.Open more) :
    joinItemsOnto chain bound' out (c.followed more) = .ok (items, after.followed more) := by
  induction bound generalizing bound' out c with
  | zero => cases h
  | succ bound ih =>
    obtain ⟨bound', rfl⟩ : ∃ b, bound' = b + 1 := ⟨bound' - 1, by omega⟩
    have hc := (joinItemsOnto_advances hadv _ _ h).open hopen
    rw [joinItemsOnto_eq_ok, skipBlanks_followed more hc]
    obtain ⟨i, c', hi, h⟩ := joinItemsOnto_eq_ok.mp h
    rcases h with ⟨comma, hcomma, h⟩ | ⟨hcomma, hclose, hitems⟩
    · have hcomma' := (joinItemsOnto_advances hadv _ _ h).open hopen
      have hopen' := c'.skipBlanks_reaches.open ((eat?_reaches hcomma).open hcomma')
      refine ⟨i, _, joinItem_local hchain hadv more hi hopen', .inl ?_⟩
      rw [skipBlanks_followed more hopen']
      exact ⟨_, eat?_followed_of_some more hcomma' hcomma, ih (Nat.le_of_succ_le_succ hle) h⟩
    · have hskip := (eat?_reaches hclose).open hopen
      have hopen' := c'.skipBlanks_reaches.open hskip
      refine ⟨i, _, joinItem_local hchain hadv more hi hopen', .inr ?_⟩
      rw [skipBlanks_followed more hopen']
      exact ⟨eat?_followed_of_none more hskip hcomma, eat?_followed_of_some more hopen hclose,
        hitems⟩

theorem head_local : Local (head chain) := by
  intro c hd after more h hopen
  have hc := (head_advances hadv h).open hopen
  rw [head_eq_ok, peek_followed more hc]
  rcases head_eq_ok.mp h with ⟨hkey, k, hk, hhd⟩ | ⟨hkey, id, c', hid, h⟩
  · exact .inl ⟨hkey, k, key_local more hk hopen, hhd⟩
  · refine .inr ⟨hkey, id, _, ident_followed more hc hid, ?_⟩
    rcases h with ⟨inside, hinside, as, has, hhd⟩ | ⟨hinside, hhd, rfl⟩
    · exact .inl ⟨_, eat?_followed_of_some more ((args_advances hadv has).open hopen) hinside, as,
        args_local hchain hadv more has hopen, hhd⟩
    · exact .inr ⟨eat?_followed_of_none more hopen hinside, hhd, rfl⟩

theorem dotStep_local (start : Nat) : Local (dotStep chain start) := by
  intro c s after more h hopen
  have hc := (dotStep_advances hadv start h).open hopen
  rw [dotStep_eq_ok, peek_followed more hc, next_followed more hc]
  rcases dotStep_eq_ok.mp h with ⟨hjoin, items, hitems, hs⟩ | ⟨hjoin, id, c', hid, h⟩
  · exact .inl ⟨hjoin, items, joinItemsOnto_local more hchain hadv
      (Nat.succ_le_succ (le_length_followed more hc)) hitems hopen, hs⟩
  · refine .inr ⟨hjoin, id, _, ident_followed more hc hid, ?_⟩
    rcases h with ⟨inside, hinside, hclose, hs⟩ | ⟨hinside, hs, rfl⟩
    · have hinside' := (inside.skipBlanks_reaches.trans (eat?_reaches hclose)).open hopen
      refine .inl ⟨_, eat?_followed_of_some more hinside' hinside, ?_, hs⟩
      rw [skipBlanks_followed more hinside']
      exact eat?_followed_of_some more hopen hclose
    · exact .inr ⟨eat?_followed_of_none more hopen hinside, hs, rfl⟩

theorem step?_local {s : Step} (h : step? chain c = some (.ok (s, after)))
    (hopen : after.Open more) : step? chain (c.followed more) = some (.ok (s, after.followed more)) := by
  have hc := (step?_advances hadv h).1.open hopen
  rw [step?_eq_ok, peek_followed more hc, next_followed more hc]
  rcases step?_eq_ok.mp h with ⟨hdot, h⟩ | ⟨hbracket, k, hk, hs⟩
  · exact .inl ⟨hdot, dotStep_local hchain hadv c.pos more h hopen⟩
  · exact .inr ⟨hbracket, k, key_local more hk hopen, hs⟩

omit hchain hadv in
theorem step?_followed_of_none (hc : c.Open more) (h : step? chain c = none) :
    step? chain (c.followed more) = none := by
  rwa [step?_eq_none, peek_followed more hc, ← step?_eq_none]

theorem stepsOnto_local {bound bound' : Nat} {out steps : List Step}
    (hbound : c.rest.length < bound) (hle : bound ≤ bound')
    (h : stepsOnto chain bound out c = .ok (steps, after)) (hopen : after.Open more) :
    stepsOnto chain bound' out (c.followed more) = .ok (steps, after.followed more) := by
  induction bound generalizing bound' out c with
  | zero => exact absurd hbound (Nat.not_lt_zero _)
  | succ bound ih =>
    obtain ⟨bound', rfl⟩ : ∃ b, bound' = b + 1 := ⟨bound' - 1, by omega⟩
    rcases stepsOnto_eq_ok.mp h with ⟨hstep, hsteps, rfl⟩ | ⟨s, c', hstep, hlast, h⟩
    · exact stepsOnto_eq_ok.mpr (.inl ⟨step?_followed_of_none more hopen hstep, hsteps, rfl⟩)
    · have hopen' := (stepsOnto_advances hadv _ _ h).open hopen
      have hlength := (step?_advances hadv hstep).2
      exact stepsOnto_eq_ok.mpr (.inr ⟨s, _, step?_local more hchain hadv hstep hopen', hlast,
        ih (by omega) (Nat.le_of_succ_le_succ hle) h⟩)

end Levels

theorem arithmetic_local (joined : Bool) : Local (arithmetic joined) := by
  intro c a after more h hopen
  have hc := (arithmetic_advances joined h).open hopen
  rw [arithmetic_eq_ok, peek_followed more hc, next_followed more hc]
  rcases arithmetic_eq_ok.mp h with ⟨hop, ha, rfl⟩ | ⟨op, hop, n, hn, hjoined, ha⟩
  · exact .inl ⟨hop, ha, rfl⟩
  · refine .inr ⟨op, hop, n, ?_, hjoined, ha⟩
    rw [skipBlanks_followed more (c.next.skipBlanks_reaches.open ((number_reaches hn).open hopen))]
    exact number_local more hn hopen

theorem conversion_local (joined : Bool) : Local (conversion joined) := by
  intro c v after more h hopen
  have hc := (conversion_advances joined h).open hopen
  have has : ∀ x ∈ "as".toList, isNameChar x := by
    rw [← List.all_eq_true]
    decide
  rw [conversion_eq_ok, word?_followed more hc has]
  rcases conversion_eq_ok.mp h with ⟨hword, hv, rfl⟩ | ⟨word, hword, id, hid, h⟩
  · exact .inl ⟨by rw [hword]; rfl, hv, rfl⟩
  · have hword' := hc.word has hword
    refine .inr ⟨_, by rw [hword]; rfl, id, ?_, h⟩
    rw [skipBlanks_followed more hword']
    exact ident_followed more hword'.skipBlanks hid

theorem chainLevel_local (hchain : Local chain) (hadv : Advances chain) :
    Local (chainLevel chain) := by
  intro c t after more h hopen
  obtain ⟨hd, c₁, hhead, steps, c₂, hsteps, a, c₃, ha, v, hv, ht⟩ := chainLevel_eq_ok.mp h
  have hopen₃ := (c₃.skipBlanks_reaches.trans (conversion_advances _ hv)).open hopen
  have hopen₂ := (c₂.skipBlanks_reaches.trans (arithmetic_advances _ ha)).open hopen₃
  have hopen₁ := (stepsOnto_advances hadv _ _ hsteps).open hopen₂
  refine chainLevel_eq_ok.mpr ⟨hd, _, head_local hchain hadv more hhead hopen₁, steps, _,
    stepsOnto_local more hchain hadv (Nat.lt_succ_self _)
      (Nat.succ_le_succ (le_length_followed more hopen₁)) hsteps hopen₂, a, c₃.followed more, ?_, v,
    ?_, ht⟩
  · rw [skipBlanks_followed more hopen₂]
    exact arithmetic_local _ more ha hopen₃
  · rw [skipBlanks_followed more hopen₃]
    exact conversion_local _ more hv hopen

theorem chain_local (limit levels : Nat) : Local (Parser.chain limit levels) := by
  induction levels with
  | zero =>
    intro c t after more h _
    cases h
  | succ levels ih => exact chainLevel_local ih (chain_advances limit levels)

/-- An expression is the same whatever follows its closing brace. -/
theorem expression_followed (hclosed : after.ClosedBy '}' more) (hchain : Local chain)
    (hadv : Advances chain) {start : Nat} {e : Expr}
    (h : expression chain start c = .ok (e, after)) :
    expression chain start (c.followed more) = .ok (e, after.followed more) := by
  obtain ⟨-, hempty, c', he, hclose⟩ := expression_eq_ok.mp h
  have hopen' := c'.skipBlanks_reaches.open (hclosed.open (eat?_closes hclose))
  have hskip := (expr_advances hadv he).open hopen'
  have hend : (c.skipBlanks.followed more).atEnd = false := by
    obtain ⟨x, cs, -, hmore⟩ := followed_cons more hskip
    rw [hmore]
    rfl
  rw [expression_eq_ok, skipBlanks_followed more (c.skipBlanks_reaches.open hskip)]
  refine ⟨hend, eat?_followed_of_none more hskip hempty, _,
    expr_local hchain hadv more he hopen', ?_⟩
  rw [skipBlanks_followed more hopen']
  exact eat?_followed_of_closedBy more hclosed hclose

end Parser

end PathTemplate.Template
