import PathTemplate.Proofs.Template.Following
import PathTemplate.Proofs.Template.Tokens

/-!
Words of templates with more blanks between their tokens. A name, a truth value, a number, a text in
quotes or a key is read as before, and behind it the two texts are side by side again.
-/

namespace PathTemplate.Template

open Mode (IsLoose)

theorem Ident.name_eq {id id' : Ident} (h : id'.unplaced = id.unplaced) : id'.name = id.name := by
  simpa [Ident.unplaced] using h

namespace Cursor

variable {m : Mode} {depth : Nat} {place : Place} {c c' after : Cursor} {x : Char}

/-- The text at the second place is the one at the first with blanks put in at loose gaps. -/
def Apart (m : Mode) (c c' : Cursor) : Prop := Respaced IsLoose m c.rest c'.rest

/-- Places side by side, where no blank comes next. -/
structure Level (m : Mode) (c c' : Cursor) : Prop where
  apart : c.Apart m c'
  stops : Stops Text.isBlank c'.rest

theorem Apart.skipBlanks (h : c.Apart (.code depth place) c') :
    c.skipBlanks.Level (.code depth place) c'.skipBlanks :=
  ⟨h.dropBlanks, stops_dropWhile _ _⟩

theorem Level.peek (h : c.Level m c') : c'.peek = c.peek := h.apart.head?_eq h.stops

theorem Level.atName (h : c.Level m c') : c'.atName = c.atName := by
  rw [Cursor.atName, h.peek, Cursor.atName]

theorem Level.atQuote (h : c.Level m c') : c'.atQuote = c.atQuote := by
  rw [Cursor.atQuote, h.peek, Cursor.atQuote]

theorem Level.atEnd (h : c.Level m c') : c'.atEnd = c.atEnd := by
  have hpeek : ∀ c : Cursor, c.atEnd = c.peek.isNone := by
    rintro ⟨pos, rest⟩
    cases rest <;> rfl
  rw [hpeek, h.peek, hpeek]

theorem rest_of_peek (h : c.peek = some x) : c.rest = x :: c.next.rest := by
  obtain ⟨pos, rest⟩ := c
  cases rest with
  | nil => cases h
  | cons y rest =>
    cases h
    rfl

theorem eat?_of_peek (h : c.peek = some x) : c.eat? x = some c.next := if_pos h

theorem eat?_eq_none : c.eat? x = none ↔ c.peek ≠ some x := by
  simp [eat?]

theorem eat?_next (h : c.eat? x = some after) : c.peek = some x ∧ after = c.next := by
  unfold eat? at h
  split at h
  next hx =>
    cases h
    exact ⟨hx, rfl⟩
  next => cases h

theorem Level.eat?_none (h : c.Level m c') (hx : c.eat? x = none) : c'.eat? x = none := by
  rw [eat?_eq_none, h.peek]
  exact eat?_eq_none.mp hx

theorem Level.stops_peek (h : c.Level m c') (hx : c.peek = some x) : Text.isBlank x = false :=
  h.stops x (h.peek.trans hx)

/-- The first token is the same, and behind it the texts are side by side. -/
theorem Level.cut (h : c.Level m c') (hx : c.peek = some x) :
    ∃ run rest', c.next.rest = run ++ (Template.cut m x c.next.rest).1 ∧
      c'.next.rest = run ++ rest' ∧
      Respaced IsLoose (Template.cut m x c.next.rest).2 (Template.cut m x c.next.rest).1 rest' := by
  have hrest := h.apart
  rw [Apart, rest_of_peek hx] at hrest
  obtain ⟨run, rest', hrun, hrest, hrespaced⟩ := hrest.token_inv h.stops
  rw [rest_of_peek (h.peek.trans hx)] at hrest
  exact ⟨run, rest', hrun, List.tail_eq_of_cons_eq hrest, hrespaced⟩

theorem Level.next (h : c.Level (.code depth place) c') (hx : c.peek = some x) (hmark : x ∈ marks)
    (hkey : place = .key → x = ']') (hnumber : ¬(place = .start ∧ c.atNumber)) :
    c.next.Apart (.afterMark depth x) c'.next := by
  obtain ⟨run, rest', hrun, hrest, hrespaced⟩ := h.cut hx
  have hnumber : ¬(place = .start ∧ Cursor.atNumber ⟨0, x :: c.next.rest⟩) := by
    rw [← rest_of_peek hx]
    exact hnumber
  rw [cut_mark hmark hkey hnumber] at hrun hrespaced
  obtain rfl : run = [] := by simpa using hrun
  rw [Apart, hrest]
  exact hrespaced

theorem Apart.level_of_tied (h : c.Apart (.code depth .tied) c')
    (hstops : Stops Text.isBlank c.rest) : c.Level (.code depth .tied) c' :=
  ⟨h, h.stops_of_not_gap id hstops⟩

theorem not_isBlank_of_continuesPath (h : continuesPath x) : Text.isBlank x = false := by
  simp only [continuesPath, Bool.or_eq_true, decide_eq_true_eq] at h
  rcases h with (rfl | rfl) | rfl <;> decide

theorem Apart.level_of_path (h : c.Apart (.code depth .behind) c') (hx : c.peek = some x)
    (hpath : continuesPath x) : c.Level (.code depth .behind) c' := by
  have hrest := rest_of_peek hx
  refine ⟨h, h.stops_of_not_gap ?_ ?_⟩
  · rw [hrest, IsLoose, stops_cons, hpath]
    exact Bool.noConfusion
  · rw [hrest, stops_cons]
    exact not_isBlank_of_continuesPath hpath

theorem Apart.eat?_none (h : c.Apart m c') (hx : Text.isBlank x = false) (heat : c.eat? x = none) :
    c'.eat? x = none := by
  rw [eat?_eq_none] at heat ⊢
  intro hpeek
  have hstops : Stops Text.isBlank c'.rest := by
    rw [rest_of_peek hpeek, stops_cons]
    exact hx
  exact heat ((h.head?_eq hstops).symm.trans hpeek)

end Cursor

theorem Respaced.stops {gap : Mode → List Char → Prop} {m : Mode} {cs cs' : List Char}
    (h : Respaced gap m cs cs') {p : Char → Bool} (hp : ∀ x, Text.isBlank x → p x = false)
    (hcs : Stops p cs) : Stops p cs' := by
  cases h with
  | nil => exact hcs
  | token => exact stops_cons.mpr (stops_cons.mp hcs)
  | blank hb => exact stops_cons.mpr (hp _ hb)

namespace Cursor

variable {m : Mode} {depth : Nat} {place : Place} {c c' after : Cursor} {x : Char}

theorem not_quote_of_isNameStart (h : isNameStart x) : ¬(x = '"' ∨ x = '\'') := by
  rintro (rfl | rfl)
  · exact absurd h (by decide)
  · exact absurd h (by decide)

theorem atName_iff : c.atName ↔ ∃ x, c.peek = some x ∧ isNameStart x := by
  unfold Cursor.atName
  cases c.peek <;> simp

theorem Level.name (h : c.Level (.code depth place) c') (hplace : place ≠ .key) (hat : c.atName) :
    c'.rest.takeWhile isNameChar = c.rest.takeWhile isNameChar ∧
      Respaced IsLoose (.code depth .behind) (c.rest.dropWhile isNameChar)
        (c'.rest.dropWhile isNameChar) := by
  obtain ⟨x, hx, hstart⟩ := atName_iff.mp hat
  obtain ⟨run, rest', hrun, hrest, hrespaced⟩ := h.cut hx
  have hcut : Template.cut (.code depth place) x c.next.rest =
      (c.next.rest.dropWhile isNameChar, .code depth .behind) := by
    simp only [Template.cut, h.stops_peek hx, not_quote_of_isNameStart hstart, hplace, hstart,
      Bool.false_eq_true, false_and, if_false, if_true]
  rw [hcut] at hrun hrespaced
  have hchar := isNameChar_of_isNameStart hstart
  have hstops := hrespaced.stops (fun _ => isNameChar_of_isBlank) (stops_dropWhile _ _)
  have hword : run = c.next.rest.takeWhile isNameChar := by
    rw [← List.append_left_inj, List.takeWhile_append_dropWhile, ← hrun]
  have hall : ∀ y ∈ run, isNameChar y := fun y hy =>
    List.mem_takeWhile_imp (by rwa [hword] at hy)
  rw [rest_of_peek hx, rest_of_peek (h.peek.trans hx), hrest,
    List.takeWhile_cons_of_pos hchar, List.takeWhile_cons_of_pos hchar,
    List.dropWhile_cons_of_pos hchar, List.dropWhile_cons_of_pos hchar,
    takeWhile_append_of_stops hstops, dropWhile_append_of_stops hstops,
    List.takeWhile_eq_self_iff.mpr hall, List.dropWhile_eq_nil_iff.mpr hall, List.nil_append,
    hword]
  exact ⟨rfl, hrespaced⟩

theorem atName_of_ident {what : String} {id : Ident} (hid : c.ident what = .ok (id, after)) :
    c.atName := by
  have hid := ident_isName hid
  unfold ident? at hid
  split at hid
  next hat => exact hat
  next => cases hid

theorem Level.ident (h : c.Level (.code depth place) c') (hplace : place ≠ .key) {what : String}
    {id : Ident} (hid : c.ident what = .ok (id, after)) :
    ∃ id' after', c'.ident what = .ok (id', after') ∧ id'.unplaced = id.unplaced ∧
      after.Apart (.code depth .behind) after' := by
  have hat := atName_of_ident hid
  obtain ⟨hrun, hrest⟩ := h.name hplace hat
  have hat' := h.atName.trans hat
  unfold Cursor.ident ident? at hid ⊢
  rw [if_pos hat] at hid
  rw [if_pos hat']
  cases hid
  refine ⟨_, _, rfl, ?_, hrest⟩
  simp only [Ident.unplaced, hrun]

theorem atName_of_run {w : List Char} (hw : w.head?.any isNameStart)
    (hrun : c.rest.takeWhile isNameChar = w) : c.atName := by
  obtain ⟨pos, rest⟩ := c
  subst hrun
  cases rest with
  | nil => simp at hw
  | cons y rest =>
    by_cases hy : isNameChar y
    · simpa [hy, Cursor.atName] using hw
    · simp [hy] at hw

theorem Level.run_iff (h : c.Level (.code depth place) c') (hplace : place ≠ .key)
    {w : List Char} (hw : w.head?.any isNameStart) :
    c'.rest.takeWhile isNameChar = w ↔ c.rest.takeWhile isNameChar = w := by
  constructor
  · intro hrun
    rw [← (h.name hplace (h.atName ▸ atName_of_run hw hrun)).1, hrun]
  · intro hrun
    rw [(h.name hplace (atName_of_run hw hrun)).1, hrun]

section Word

variable {w : String} (hw : ∀ y ∈ w.toList, isNameChar y) (hfirst : w.toList.head?.any isNameStart)
include hw hfirst

theorem Level.word?_none (h : c.Level (.code depth place) c') (hplace : place ≠ .key)
    (hword : c.word? w = none) : c'.word? w = none := by
  rw [word?_eq hw, ite_eq_right_iff] at hword ⊢
  intro hrun
  cases hword ((h.run_iff hplace hfirst).mp hrun)

theorem Level.word? (h : c.Level (.code depth place) c') (hplace : place ≠ .key)
    (hword : c.word? w = some after) :
    ∃ after', c'.word? w = some after' ∧ after.Apart (.code depth .behind) after' := by
  have hrun : c.rest.takeWhile isNameChar = w.toList := by
    rw [word?_eq hw] at hword
    split at hword
    next hrun => exact hrun
    next => cases hword
  have hword' := (word?_advance hw ((h.run_iff hplace hfirst).mpr hrun)).1
  refine ⟨_, hword', ?_⟩
  rw [Apart, word?_rest hw hword, word?_rest hw hword']
  exact (h.name hplace (atName_of_run hfirst hrun)).2

end Word

theorem head?_boolText (b : Bool) : (boolText b).head?.any isNameStart := by
  cases b <;> decide

theorem continues_eq {cs cs' : List Char} (h : Respaced IsLoose (.code depth .behind) cs cs') :
    cs'.head?.any continuesPath = cs.head?.any continuesPath := by
  cases h with
  | nil | token => rfl
  | @blank _ b _ cs' hb hgap =>
    have hcs : cs.head?.any continuesPath = false := by
      cases hx : cs.head? with
      | none => rfl
      | some x => exact hgap x hx
    have hpath : continuesPath b = false := by
      cases hpath : continuesPath b with
      | false => rfl
      | true => simp [not_isBlank_of_continuesPath hpath] at hb
    simp [hcs, hpath]

theorem Level.bool?_cases (h : c.Level (.code depth place) c') (hplace : place ≠ .key) :
    (c.bool? = none ∧ c'.bool? = none) ∨ ∃ b after after', c.bool? = some (b, after) ∧
      c'.bool? = some (b, after') ∧ after.Apart (.code depth .behind) after' := by
  by_cases hrun : ∃ b, c.rest.takeWhile isNameChar = boolText b
  · obtain ⟨b, hrun⟩ := hrun
    have hrest := (h.name hplace (atName_of_run (head?_boolText b) hrun)).2
    have hrun' := (h.run_iff hplace (head?_boolText b)).mpr hrun
    rw [bool?_of_run hrun, bool?_of_run hrun', continues_eq hrest]
    split
    · exact .inl ⟨rfl, rfl⟩
    · refine .inr ⟨b, _, _, rfl, rfl, ?_⟩
      rw [Apart, advance_of_takeWhile hrun, advance_of_takeWhile hrun']
      exact hrest
  · refine .inl ⟨bool?_of_other fun b hb => hrun ⟨b, hb⟩, bool?_of_other fun b hb => hrun ⟨b, ?_⟩⟩
    exact (h.run_iff hplace (head?_boolText b)).mp hb

theorem Level.bool?_none (h : c.Level (.code depth place) c') (hplace : place ≠ .key)
    (hbool : c.bool? = none) : c'.bool? = none := by
  rcases h.bool?_cases hplace with ⟨-, hbool'⟩ | ⟨b, after, -, hsome, -⟩
  · exact hbool'
  · simp [hbool] at hsome

theorem Level.bool? (h : c.Level (.code depth place) c') (hplace : place ≠ .key) {b : Bool}
    (hbool : c.bool? = some (b, after)) :
    ∃ after', c'.bool? = some (b, after') ∧ after.Apart (.code depth .behind) after' := by
  rcases h.bool?_cases hplace with ⟨hnone, -⟩ | ⟨b', c₁, after', hsome, hbool', hafter⟩
  · simp [hbool] at hnone
  · obtain ⟨rfl, rfl⟩ : b = b' ∧ after = c₁ := by simpa [hbool] using hsome
    exact ⟨after', hbool', hafter⟩

theorem quotedRest_eq {quote : Char} {pos : Nat} {out cs s : List Char}
    (h : quotedOnto quote pos out cs = .ok (s, after)) : quotedRest quote cs = after.rest := by
  fun_induction quotedOnto quote pos out cs with
  | case1 => cases h
  | case2 =>
    cases h
    rw [quotedRest.eq_def]
    simp
  | case3 => cases h
  | case4 pos out y rest pos' hne ih => rw [quotedRest, if_neg hne, if_pos rfl, ih h]
  | case5 pos out x rest pos' hne hne' ih =>
    rw [quotedRest.eq_def]
    simp only [hne, hne', if_false, ih h]

theorem atQuote_iff : c.atQuote ↔ ∃ x, c.peek = some x ∧ (x = '"' ∨ x = '\'') := by
  unfold Cursor.atQuote
  cases c.peek <;> simp

theorem Level.quoted (h : c.Level (.code depth place) c') {s : String}
    (hs : c.quoted = .ok (s, after)) (hat : c.atQuote) :
    ∃ after', c'.quoted = .ok (s, after') ∧ after.Apart (.code depth .behind) after' := by
  obtain ⟨x, hx, hquote⟩ := atQuote_iff.mp hat
  obtain ⟨run, rest', hrun, hrest, hrespaced⟩ := h.cut hx
  have hcut : Template.cut (.code depth place) x c.next.rest =
      (quotedRest x c.next.rest, .code depth .behind) := by
    simp only [Template.cut, h.stops_peek hx, hquote, Bool.false_eq_true, if_false, if_true]
  rw [hcut] at hrun hrespaced
  unfold Cursor.quoted at hs ⊢
  simp only [h.peek, hx, Option.getD_some] at hs ⊢
  cases hread : quotedOnto x c.next.pos [] c.next.rest with
  | error pos =>
    rw [hread] at hs
    cases hs
  | ok r =>
    obtain ⟨cs, after₁⟩ := r
    rw [hread] at hs
    cases hs
    rw [quotedRest_eq hread] at hrun hrespaced
    obtain ⟨run', hrun', -, hread⟩ := quotedOnto_run hread
    obtain rfl : run = run' := (List.append_left_inj _).mp (hrun.symm.trans hrun')
    rw [hrest, hread]
    exact ⟨_, rfl, hrespaced⟩

/-- What stands behind a token, with blanks put in: a blank comes first or what was first, and
behind a point the same character. -/
def Trails (rest rest' : List Char) : Prop :=
  ∀ x ∈ rest'.head?, Text.isBlank x ∨ rest.head? = some x ∧ (x = '.' → rest'[1]? = rest[1]?)

theorem trails_of_respaced {rest rest' : List Char}
    (h : Respaced IsLoose (.code depth .behind) rest rest') : Trails rest rest' := by
  cases h with
  | nil => exact fun x hx => by cases hx
  | blank hb =>
    rintro x ⟨⟩
    exact .inl hb
  | @token _ y cs cs' run hrun h =>
    rintro x ⟨⟩
    refine .inr ⟨rfl, ?_⟩
    rintro rfl
    rw [cut_mark (by decide) (by simp) (by simp)] at hrun h
    obtain rfl : run = [] := by simpa using hrun
    cases h with
    | nil | token => rfl
    | blank _ hgap => exact hgap.elim

theorem Trails.stops {rest rest' : List Char} (h : Trails rest rest') {p : Char → Bool}
    (hp : ∀ x, Text.isBlank x → p x = false) (hrest : Stops p rest) : Stops p rest' := by
  intro x hx
  rcases h x hx with hb | ⟨hx, -⟩
  · exact hp x hb
  · exact hrest x hx

theorem isDigit_of_isBlank (h : Text.isBlank x) : x.isDigit = false := by
  cases hx : x.isDigit with
  | false => rfl
  | true => simpa [isNameChar_of_isBlank h] using isNameChar_of_isDigit hx

theorem Trails.digits {rest rest' : List Char} (h : Trails rest rest')
    (hrest : Stops Char.isDigit rest) : Stops Char.isDigit rest' :=
  h.stops (fun _ => isDigit_of_isBlank) hrest

theorem sign_run {cs : List Char} {pos : Nat} (h : atNumber ⟨pos, cs⟩) :
    ∃ negative run d tail, cs = run ++ d :: tail ∧ d.isDigit ∧ ∀ pos' tail',
      atNumber ⟨pos', run ++ d :: tail'⟩ ∧
        ∃ stop, sign ⟨pos', run ++ d :: tail'⟩ = (negative, ⟨stop, d :: tail'⟩) := by
  cases cs with
  | nil => cases h
  | cons x cs =>
    simp only [atNumber, peek_cons, Bool.or_eq_true, Bool.and_eq_true, decide_eq_true_eq] at h
    rcases h with hdigit | ⟨hsign, hdigit⟩
    · have hminus : x ≠ '-' := by
        rintro rfl
        exact absurd hdigit (by decide)
      have hplus : x ≠ '+' := by
        rintro rfl
        exact absurd hdigit (by decide)
      refine ⟨false, [], x, cs, rfl, hdigit, fun pos' tail' => ⟨?_, pos', ?_⟩⟩
      · simp [atNumber, hdigit]
      · simp only [List.nil_append, sign, peek_cons]
        split <;> simp_all
    · cases cs with
      | nil => cases hdigit
      | cons d cs =>
        have hd : d.isDigit := hdigit
        rcases hsign with rfl | rfl
        · exact ⟨true, ['-'], d, cs, rfl, hd, fun pos' tail' =>
            ⟨by simp [atNumber, peekNth, hd], _, rfl⟩⟩
        · exact ⟨false, ['+'], d, cs, rfl, hd, fun pos' tail' =>
            ⟨by simp [atNumber, peekNth, hd], _, rfl⟩⟩

theorem takeWhile_run {p : Char → Bool} {left' : List Char} (h : Stops p left') (cs : List Char) :
    (cs.takeWhile p ++ left').takeWhile p = cs.takeWhile p ∧
      (cs.takeWhile p ++ left').dropWhile p = left' := by
  have hall : ∀ x ∈ cs.takeWhile p, p x := fun x hx => List.mem_takeWhile_imp hx
  rw [takeWhile_append_of_stops h, dropWhile_append_of_stops h,
    List.takeWhile_eq_self_iff.mpr hall, List.dropWhile_eq_nil_iff.mpr hall]
  exact ⟨rfl, rfl⟩

theorem fraction?_run (cs : List Char) (pos : Nat) :
    (fraction? ⟨pos, cs⟩ = none ∧
      ∀ pos' cs', Trails cs cs' → fraction? ⟨pos', cs'⟩ = none) ∨
    ∃ digits run stop left, fraction? ⟨pos, cs⟩ = some (digits, ⟨stop, left⟩) ∧
      cs = '.' :: (run ++ left) ∧ Stops Char.isDigit left ∧
      ∀ pos' left', Stops Char.isDigit left' →
        ∃ stop', fraction? ⟨pos', '.' :: (run ++ left')⟩ = some (digits, ⟨stop', left'⟩) := by
  by_cases hpoint : cs.head? = some '.' ∧ cs[1]?.any Char.isDigit
  · obtain ⟨hhead, hdigit⟩ := hpoint
    match cs with
    | [] | [_] => simp at hdigit
    | x :: d :: cs =>
      obtain rfl : x = '.' := by simpa using hhead
      have hd : d.isDigit := by simpa using hdigit
      have hfraction : ∀ pos cs, fraction? ⟨pos, '.' :: d :: cs⟩ =
          some (takeWhile ⟨pos + '.'.utf8Size, d :: cs⟩ Char.isDigit) := fun pos cs => by
        simp [fraction?, peekNth, hd]
      refine .inr ⟨_, (d :: cs).takeWhile Char.isDigit, _, _, hfraction pos cs, ?_,
        stops_dropWhile _ _, ?_⟩
      · rw [List.takeWhile_append_dropWhile]
      · intro pos' left' hleft
        obtain ⟨htake, hdrop⟩ := takeWhile_run hleft (d :: cs)
        rw [List.takeWhile_cons_of_pos hd, List.cons_append] at htake hdrop ⊢
        rw [hfraction, takeWhile_mk, htake, hdrop]
        exact ⟨_, rfl⟩
  · have hnone : ∀ pos cs, ¬(cs.head? = some '.' ∧ cs[1]?.any Char.isDigit) →
        fraction? ⟨pos, cs⟩ = none := by
      intro pos cs h
      rw [fraction?, if_neg]
      rw [Bool.and_eq_true, decide_eq_true_eq]
      exact h
    refine .inl ⟨hnone pos cs hpoint, fun pos' cs' ht => hnone pos' cs' fun h => ?_⟩
    rcases ht '.' h.1 with hb | ⟨hhead, hnext⟩
    · exact absurd hb (by decide)
    · exact hpoint ⟨hhead, hnext rfl ▸ h.2⟩

theorem atNumber_of_sign (h : c.sign.2.peek.any Char.isDigit) : c.atNumber := by
  obtain ⟨pos, rest⟩ := c
  cases rest with
  | nil => simp [sign, Cursor.peek] at h
  | cons x rest =>
    unfold sign at h
    split at h
    next hx =>
      obtain rfl : x = '-' := by simpa using hx
      simpa [atNumber, peekNth, Cursor.peek, ← List.head?_eq_getElem?] using h
    next hx =>
      obtain rfl : x = '+' := by simpa using hx
      simpa [atNumber, peekNth, Cursor.peek, ← List.head?_eq_getElem?] using h
    next =>
      have hdigit : x.isDigit := by simpa using h
      simp [atNumber, hdigit]

theorem exponent?_of_letter (hx : x = 'e' ∨ x = 'E') (pos : Nat) (cs : List Char) :
    exponent? ⟨pos, x :: cs⟩ = some ((sign ⟨pos + x.utf8Size, cs⟩).1,
      (sign ⟨pos + x.utf8Size, cs⟩).2.takeWhile Char.isDigit) := by
  rw [exponent?, if_pos]
  · rfl
  · simpa using hx

theorem exponent?_of_other {cs : List Char} (h : ∀ x ∈ cs.head?, ¬(x = 'e' ∨ x = 'E'))
    (pos : Nat) : exponent? ⟨pos, cs⟩ = none := by
  rw [exponent?, if_neg]
  cases cs with
  | nil => simp [Cursor.peek]
  | cons x cs => simpa using h x rfl

theorem atNumber_of_exponent? {cs : List Char} {pos : Nat} (hx : x = 'e' ∨ x = 'E')
    (h : ∀ negative after, exponent? ⟨pos, x :: cs⟩ ≠ some (negative, [], after)) :
    atNumber ⟨pos + x.utf8Size, cs⟩ := by
  refine atNumber_of_sign (Bool.of_not_eq_false fun hnot => ?_)
  rw [exponent?_of_letter hx] at h
  generalize sign ⟨pos + x.utf8Size, cs⟩ = r at h hnot
  obtain ⟨negative, p, left⟩ := r
  refine h negative _ (congrArg some (congrArg _ (Prod.ext ?_ rfl)))
  cases left with
  | nil => rfl
  | cons y left => exact List.takeWhile_cons_of_neg (by simpa using hnot)

theorem exponent?_run {cs : List Char} {pos : Nat}
    (h : ∀ negative after, exponent? ⟨pos, cs⟩ ≠ some (negative, [], after)) :
    (exponent? ⟨pos, cs⟩ = none ∧ ∀ pos' cs', Trails cs cs' → exponent? ⟨pos', cs'⟩ = none) ∨
    ∃ negative digits x run stop left,
      exponent? ⟨pos, cs⟩ = some (negative, digits, ⟨stop, left⟩) ∧
      cs = x :: (run ++ left) ∧ x.isDigit = false ∧ x ≠ '.' ∧ Stops Char.isDigit left ∧
      ∀ pos' left', Stops Char.isDigit left' → ∃ stop',
        exponent? ⟨pos', x :: (run ++ left')⟩ = some (negative, digits, ⟨stop', left'⟩) := by
  by_cases hletter : ∃ x ∈ cs.head?, x = 'e' ∨ x = 'E'
  · obtain ⟨x, hx, hletter⟩ := hletter
    cases cs with
    | nil => cases hx
    | cons y cs =>
      cases hx
      obtain ⟨negative, run, d, tail, rfl, hd, hsign⟩ := sign_run (atNumber_of_exponent? hletter h)
      obtain ⟨-, stop, hread⟩ := hsign (pos + x.utf8Size) tail
      have hfirst := exponent?_of_letter hletter pos (run ++ d :: tail)
      rw [hread, takeWhile_mk] at hfirst
      refine .inr ⟨negative, _, x, run ++ (d :: tail).takeWhile Char.isDigit, _, _, hfirst, ?_, ?_,
        ?_, stops_dropWhile _ _, ?_⟩
      · rw [List.append_assoc, List.takeWhile_append_dropWhile]
      · rcases hletter with rfl | rfl <;> decide
      · rcases hletter with rfl | rfl <;> decide
      · intro pos' left' hleft
        obtain ⟨htake, hdrop⟩ := takeWhile_run hleft (d :: tail)
        rw [List.takeWhile_cons_of_pos hd, List.cons_append] at htake hdrop
        rw [List.takeWhile_cons_of_pos hd, List.append_assoc, List.cons_append]
        obtain ⟨-, stop', hread'⟩ := hsign (pos' + x.utf8Size) (tail.takeWhile Char.isDigit ++ left')
        rw [exponent?_of_letter hletter, hread', takeWhile_mk, htake, hdrop]
        exact ⟨_, rfl⟩
  · have hother : ∀ x ∈ cs.head?, ¬(x = 'e' ∨ x = 'E') := fun x hx h => hletter ⟨x, hx, h⟩
    refine .inl ⟨exponent?_of_other hother pos, fun pos' cs' ht => ?_⟩
    refine exponent?_of_other (fun x hx => ?_) pos'
    rcases ht x hx with hb | ⟨hhead, -⟩
    · rintro (rfl | rfl) <;> exact absurd hb (by decide)
    · exact hother x hhead

def powered (value : Option (Bool × List Char) → Option Operand) (c : Cursor) :
    Option Operand × Cursor :=
  match c.exponent? with
  | some (negative, digits, after) => (value (some (negative, digits)), after)
  | none => (value none, c)

def numberValue (negative : Bool) (whole : List Char) (places : Option (List Char)) :
    Option (Bool × List Char) → Option Operand
  | some (minus, digits) =>
    if digits.isEmpty then none
    else some (.float (.ofDecimal negative (Numeric.natOfDigits (whole ++ places.getD []))
      (signed minus (powerOfDigits digits) - (places.getD []).length)))
  | none =>
    match places with
    | some places =>
      some (.float (.ofDecimal negative (Numeric.natOfDigits (whole ++ places))
        (0 - places.length)))
    | none => (int64? negative (Numeric.natOfDigits whole)).map .int

def scanPlaces (negative : Bool) (whole : List Char) (c : Cursor) : Option Operand × Cursor :=
  match c.fraction? with
  | some (places, after) => powered (numberValue negative whole (some places)) after
  | none => powered (numberValue negative whole none) c

theorem scanNumber_eq (c : Cursor) : c.scanNumber =
    scanPlaces c.sign.1 (c.sign.2.takeWhile Char.isDigit).1
      (c.sign.2.takeWhile Char.isDigit).2 := by
  unfold scanNumber scanPlaces powered
  dsimp only
  cases (c.sign.2.takeWhile Char.isDigit).2.fraction? with
  | none =>
    dsimp only [Option.getD_none]
    cases (c.sign.2.takeWhile Char.isDigit).2.exponent? <;> rfl
  | some r =>
    dsimp only [Option.getD_some]
    cases r.2.exponent? <;> rfl

theorem powered_run {value : Option (Bool × List Char) → Option Operand}
    (hvalue : ∀ minus, value (some (minus, [])) = none) {cs : List Char} {pos : Nat} {n : Operand}
    (hstops : Stops Char.isDigit cs) (h : powered value ⟨pos, cs⟩ = (some n, after)) :
    ∃ run, cs = run ++ after.rest ∧ ∀ rest', Trails after.rest rest' →
      Stops Char.isDigit (run ++ rest') ∧
      (∀ pos', fraction? ⟨pos, cs⟩ = none → fraction? ⟨pos', run ++ rest'⟩ = none) ∧
      ∀ pos', ∃ stop, powered value ⟨pos', run ++ rest'⟩ = (some n, ⟨stop, rest'⟩) := by
  unfold powered at h
  have hempty : ∀ minus after, exponent? ⟨pos, cs⟩ ≠ some (minus, [], after) := by
    intro minus after' hexp
    simp [hexp, hvalue] at h
  rcases exponent?_run hempty with ⟨hexp, hexp'⟩ |
    ⟨minus, power, x, run, stop, left, hexp, rfl, hdigit, hpoint, hleft, hread⟩
  · simp only [hexp] at h
    obtain ⟨hn, rfl⟩ := Prod.mk.inj h
    refine ⟨[], rfl, fun rest' ht => ⟨ht.digits hstops, fun pos' hnone => ?_, fun pos' => ?_⟩⟩
    · rcases fraction?_run cs pos with ⟨-, hnone'⟩ | ⟨_, _, _, _, hsome, -⟩
      · exact hnone' pos' rest' ht
      · simp [hnone] at hsome
    · exact ⟨pos', by simp only [powered, List.nil_append, hexp' pos' rest' ht, hn]⟩
  · simp only [hexp] at h
    obtain ⟨hn, rfl⟩ := Prod.mk.inj h
    refine ⟨x :: run, rfl, fun rest' ht => ⟨stops_cons.mpr hdigit, fun pos' _ => ?_, fun pos' => ?_⟩⟩
    · simp [fraction?, hpoint]
    · obtain ⟨stop', hread⟩ := hread pos' rest' (ht.digits hleft)
      exact ⟨stop', by simp only [powered, List.cons_append, hread, hn]⟩

theorem scanPlaces_run {negative : Bool} {whole cs : List Char} {pos : Nat} {n : Operand}
    (hstops : Stops Char.isDigit cs) (h : scanPlaces negative whole ⟨pos, cs⟩ = (some n, after)) :
    ∃ run, cs = run ++ after.rest ∧ ∀ rest', Trails after.rest rest' →
      Stops Char.isDigit (run ++ rest') ∧
      ∀ pos', ∃ stop, scanPlaces negative whole ⟨pos', run ++ rest'⟩ = (some n, ⟨stop, rest'⟩) := by
  unfold scanPlaces at h
  rcases fraction?_run cs pos with ⟨hnone, -⟩ |
    ⟨digits, places, stop, left, hsome, rfl, hleft, hread⟩
  · simp only [hnone] at h
    obtain ⟨run, rfl, hrun⟩ := powered_run (fun _ => rfl) hstops h
    refine ⟨run, rfl, fun rest' ht => ?_⟩
    obtain ⟨hstops', hnone', hpower⟩ := hrun rest' ht
    refine ⟨hstops', fun pos' => ?_⟩
    simp only [scanPlaces, hnone' pos' hnone]
    exact hpower pos'
  · simp only [hsome] at h
    obtain ⟨run, rfl, hrun⟩ := powered_run (fun _ => rfl) hleft h
    refine ⟨'.' :: (places ++ run), by simp, fun rest' ht => ?_⟩
    obtain ⟨hstops', -, hpower⟩ := hrun rest' ht
    refine ⟨stops_cons.mpr (by decide), fun pos' => ?_⟩
    obtain ⟨stop', hread⟩ := hread pos' (run ++ rest') hstops'
    simp only [scanPlaces, List.cons_append, List.append_assoc, hread]
    exact hpower stop'

theorem number_run {n : Operand} (h : c.number = .ok (n, after)) :
    ∃ run, c.rest = run ++ after.rest ∧ ∀ pos rest', Trails after.rest rest' →
      ∃ stop, number ⟨pos, run ++ rest'⟩ = .ok (n, ⟨stop, rest'⟩) := by
  obtain ⟨hat, hscan⟩ := number_eq_ok.mp h
  obtain ⟨pos, cs⟩ := c
  obtain ⟨negative, run, d, tail, rfl, hd, hsign⟩ := sign_run hat
  obtain ⟨-, stop, hread⟩ := hsign pos tail
  rw [scanNumber_eq, hread, takeWhile_mk] at hscan
  obtain ⟨places, hplaces, hrun⟩ := scanPlaces_run (stops_dropWhile _ _) hscan
  refine ⟨run ++ ((d :: tail).takeWhile Char.isDigit ++ places), ?_, fun pos' rest' ht => ?_⟩
  · rw [List.append_assoc, List.append_assoc, ← hplaces, List.takeWhile_append_dropWhile]
  · obtain ⟨hstops, hrun⟩ := hrun rest' ht
    obtain ⟨htake, hdrop⟩ := takeWhile_run hstops (d :: tail)
    rw [List.takeWhile_cons_of_pos hd, List.cons_append] at htake hdrop
    simp only [List.takeWhile_cons_of_pos hd] at hrun
    rw [List.takeWhile_cons_of_pos hd, List.append_assoc, List.append_assoc, List.cons_append]
    obtain ⟨hat', stop', hread'⟩ := hsign pos' (tail.takeWhile Char.isDigit ++ (places ++ rest'))
    obtain ⟨stop'', hscan'⟩ := hrun (stop' + Text.byteLength (d :: tail.takeWhile Char.isDigit))
    refine ⟨stop'', number_eq_ok.mpr ⟨hat', ?_⟩⟩
    rw [scanNumber_eq, hread', takeWhile_mk, htake, hdrop]
    exact hscan'

theorem Level.number (h : c.Level (.code depth .start) c') {n : Operand}
    (hn : c.number = .ok (n, after)) :
    ∃ after', c'.number = .ok (n, after') ∧ after.Apart (.code depth .behind) after' := by
  have hat := atNumber_of_number hn
  obtain ⟨run, hrun, hread⟩ := number_run hn
  obtain ⟨x, hx⟩ : ∃ x, c.peek = some x := by
    cases hx : c.peek with
    | none => simp [Cursor.atNumber, hx] at hat
    | some x => exact ⟨x, rfl⟩
  have hrest := rest_of_peek hx
  have hat₀ : Cursor.atNumber ⟨0, x :: c.next.rest⟩ := by
    rw [← hrest]
    exact hat
  obtain ⟨hblank, hname, hdouble, hsingle, -⟩ := atNumber_first hat₀
  -- The token is what is read, wherever it stands.
  have hcut : Template.cut (.code depth .start) x c.next.rest = (after.rest, .code depth .behind) := by
    have hself : Trails after.rest after.rest := fun _ hy => .inr ⟨hy, fun _ => rfl⟩
    obtain ⟨stop, hself⟩ := hread 0 _ hself
    rw [← hrun, hrest] at hself
    simp only [Template.cut, hblank, hdouble, hsingle, hname, hat₀, reduceCtorEq, or_self,
      Bool.false_eq_true, false_and, true_and, if_false, if_true, (number_eq_ok.mp hself).2]
  obtain ⟨run', rest', hrun', hrest', hrespaced⟩ := h.cut hx
  rw [hcut] at hrun' hrespaced
  have hsame : run = x :: run' := by
    rw [hrest, hrun', ← List.cons_append] at hrun
    exact ((List.append_left_inj _).mp hrun).symm
  obtain ⟨stop, hread⟩ := hread c'.pos rest' (trails_of_respaced hrespaced)
  rw [hsame, List.cons_append, ← hrest', ← rest_of_peek (h.peek.trans hx)] at hread
  exact ⟨_, hread, hrespaced⟩

theorem Level.atNumber_false (h : c.Level (.code depth .start) c') (hat : c.atNumber = false) :
    c'.atNumber = false := by
  have hnumber : ¬(Place.start = .start ∧ c.atNumber) := by simp [hat]
  unfold Cursor.atNumber at hat ⊢
  rw [h.peek]
  cases hx : c.peek with
  | none => rfl
  | some x =>
    simp only [hx, Bool.or_eq_false_iff, Bool.and_eq_false_iff] at hat ⊢
    refine ⟨hat.1, ?_⟩
    rcases hat.2 with hsign | hdigit
    · exact .inl hsign
    · by_cases hsign : x = '-' ∨ x = '+'
      · refine .inr ?_
        have hmark : x ∈ marks := by rcases hsign with rfl | rfl <;> decide
        have hnext : c.next.Apart (.afterMark depth x) c'.next :=
          h.next hx hmark (by simp) hnumber
        have hstops : Stops Char.isDigit c.next.rest := by
          rw [peekNth, rest_of_peek hx] at hdigit
          cases hrest : c.next.rest with
          | nil => exact stops_nil
          | cons y rest => simpa [hrest, stops_cons] using hdigit
        have hstops' := hnext.stops (fun _ => isDigit_of_isBlank) hstops
        rw [peekNth, rest_of_peek (h.peek.trans hx)]
        cases hrest : c'.next.rest with
        | nil => rfl
        | cons y rest => simpa [hrest, stops_cons] using hstops'
      · exact .inl (by simpa using hsign)

theorem Level.literal (h : c.Level (.code depth .start) c') {l : Literal}
    (hl : c.literal = .ok (l, after)) :
    ∃ l' after', c'.literal = .ok (l', after') ∧ l'.unplaced = l.unplaced ∧
      after.Apart (.code depth .behind) after' := by
  rw [literal_eq_ok] at hl
  simp only [literal_eq_ok, h.atQuote]
  rcases hl with ⟨hat, s, hs, rfl⟩ | ⟨hat, n, hn, rfl⟩
  · obtain ⟨after', hs', hafter⟩ := h.quoted hs hat
    exact ⟨_, after', .inl ⟨hat, s, hs', rfl⟩, rfl, hafter⟩
  · obtain ⟨after', hn', hafter⟩ := h.number hn
    exact ⟨_, after', .inr ⟨hat, n, hn', rfl⟩, rfl, hafter⟩

theorem literal_starts {l : Literal} (h : c.literal = .ok (l, after)) :
    c.atQuote || c.atNumber := by
  rcases literal_eq_ok.mp h with ⟨hat, -⟩ | ⟨-, n, hn, -⟩
  · simp [hat]
  · simp [(number_eq_ok.mp hn).1]

theorem Apart.ident (h : c.Apart (.code depth .tied) c') {what : String} {id : Ident}
    (hid : c.ident what = .ok (id, after)) :
    ∃ id' after', c'.ident what = .ok (id', after') ∧ id'.unplaced = id.unplaced ∧
      after.Apart (.code depth .behind) after' := by
  refine (h.level_of_tied ?_).ident (by simp) hid
  obtain ⟨x, hx, hstart⟩ := atName_iff.mp (atName_of_ident hid)
  rw [rest_of_peek hx, stops_cons]
  exact Bool.eq_false_iff.mpr fun hb => by simp [isNameStart_of_isBlank hb] at hstart

theorem Level.defaultLiteral (h : c.Level (.code depth .start) c') {l : Literal}
    (hl : c.defaultLiteral = .ok (l, after)) :
    ∃ l' after', c'.defaultLiteral = .ok (l', after') ∧ l'.unplaced = l.unplaced ∧
      after.Apart (.code depth .behind) after' := by
  rcases defaultLiteral_eq_ok.mp hl with ⟨name, hname, id, hid, rfl⟩ | ⟨hname, b, hbool, rfl⟩ |
    ⟨hname, hbool, -, hl⟩
  · obtain ⟨hpeek, rfl⟩ := eat?_next hname
    have htied := h.next hpeek (by decide) (by simp) (by simp [Cursor.atNumber, hpeek])
    obtain ⟨id', after', hid', hbare, hafter⟩ := Apart.ident htied hid
    refine ⟨_, after', defaultLiteral_eq_ok.mpr
      (.inl ⟨_, eat?_of_peek (h.peek.trans hpeek), id', hid', rfl⟩), ?_, hafter⟩
    simp only [Literal.unplaced, Ident.name_eq hbare]
  · obtain ⟨after', hbool', hafter⟩ := h.bool? (by simp) hbool
    exact ⟨_, after', defaultLiteral_eq_ok.mpr
      (.inr (.inl ⟨h.eat?_none hname, b, hbool', rfl⟩)), rfl, hafter⟩
  · obtain ⟨l', after', hl', hbare, hafter⟩ := h.literal hl
    exact ⟨l', after', defaultLiteral_eq_ok.mpr (.inr (.inr ⟨h.eat?_none hname,
      h.bool?_none (by simp) hbool, literal_starts hl', hl'⟩)), hbare, hafter⟩

theorem Level.keyBefore (h : c.Level (.code depth .behind) c') {start : Nat} {name : String}
    {id : Ident} (start' : Nat) (hid : Cursor.keyBefore start name c = .ok (id, after)) :
    ∃ id' after', Cursor.keyBefore start' name c' = .ok (id', after') ∧
      id'.unplaced = id.unplaced ∧ after.Apart (.code depth .behind) after' := by
  obtain ⟨hclose, hname, rfl⟩ := keyBefore_eq_ok.mp hid
  obtain ⟨hpeek, rfl⟩ := eat?_next hclose
  exact ⟨_, _, keyBefore_eq_ok.mpr ⟨eat?_of_peek (h.peek.trans hpeek), hname, rfl⟩, rfl,
    h.next hpeek (by decide) (by simp) (by simp)⟩

theorem trim_append_blanks {x : Char} {cs gap : List Char} (hx : Text.isBlank x = false)
    (hgap : ∀ b ∈ gap, Text.isBlank b) :
    Text.trim (String.ofList (x :: (cs ++ gap))) = Text.trim (String.ofList (x :: cs)) := by
  have hgap' : ∀ b ∈ gap.reverse, Text.isBlank b := fun b hb => hgap b (List.mem_reverse.mp hb)
  simp only [Text.trim, String.toList_ofList, List.dropWhile_cons_of_neg (p := Text.isBlank)
    (by simp [hx] : ¬Text.isBlank x = true)]
  rw [← List.cons_append, List.reverse_append, List.dropWhile_append_of_pos hgap']

/-- A key without quotes, the blanks behind it, and the text from its bracket on. -/
structure BareKey (cs word gap tail : List Char) : Prop where
  text : cs = word ++ gap ++ tail
  free : ∀ y ∈ word, y ≠ ']'
  blank : ∀ b ∈ gap, Text.isBlank b
  bracket : tail.head? = some ']'

theorem stops_of_head? {p : Char → Bool} {tail : List Char} (h : tail.head? = some x)
    (hx : p x = false) : Stops p tail := by
  intro y hy
  rw [h] at hy
  cases hy
  exact hx

namespace BareKey

variable {cs word gap tail : List Char}

theorem split (h : BareKey cs word gap tail) :
    cs.takeWhile (· ≠ ']') = word ++ gap ∧ cs.dropWhile (· ≠ ']') = tail := by
  have hstops : Stops (· ≠ ']') tail := stops_of_head? h.bracket (by decide)
  have hall : ∀ y ∈ word ++ gap, (decide (y ≠ ']')) = true := by
    intro y hy
    rcases List.mem_append.mp hy with hy | hy
    · exact decide_eq_true (h.free y hy)
    · refine decide_eq_true ?_
      rintro rfl
      exact absurd (h.blank _ hy) (by decide)
  rw [h.text, takeWhile_append_of_stops hstops, dropWhile_append_of_stops hstops,
    List.takeWhile_eq_self_iff.mpr hall, List.dropWhile_eq_nil_iff.mpr hall]
  exact ⟨rfl, rfl⟩

theorem trim (h : BareKey cs (x :: word) gap tail) (hx : Text.isBlank x = false) :
    Text.trim (String.ofList (cs.takeWhile (· ≠ ']'))) = Text.trim (String.ofList (x :: word)) := by
  rw [h.split.1, List.cons_append, trim_append_blanks hx h.blank]

end BareKey

theorem exists_bareKey (hx : c.peek = some x) (hblank : Text.isBlank x = false)
    (hquote : ¬(x = '"' ∨ x = '\'')) (hne : x ≠ ']')
    (hclose : (c.rest.dropWhile (· ≠ ']')).head? = some ']') :
    ∃ run gap tail, BareKey c.rest (x :: run) gap tail ∧
      Template.cut (.code depth .key) x c.next.rest = (gap ++ tail, .code depth .behind) := by
  have hrest := rest_of_peek hx
  obtain ⟨run, hkey⟩ := bareKey_cons hblank hne c.next.rest
  obtain ⟨gap, hgap, hbare⟩ := bareKey_append c.rest
  rw [hrest, hkey, ← hrest] at hbare
  obtain ⟨tail, htail⟩ : ∃ tail, c.rest.dropWhile (· ≠ ']') = tail := ⟨_, rfl⟩
  have hsplit := c.rest.takeWhile_append_dropWhile (p := (· ≠ ']'))
  rw [hbare, htail] at hsplit
  refine ⟨run, gap, tail, ⟨hsplit.symm, fun y hy => ?_, hgap, htail ▸ hclose⟩, ?_⟩
  · have hmem : y ∈ c.rest.takeWhile (· ≠ ']') := hbare ▸ List.mem_append_left _ hy
    simpa using List.mem_takeWhile_imp hmem
  · simp only [Template.cut, hblank, hquote, hne, hkey, ne_eq, not_false_eq_true, and_self,
      Bool.false_eq_true, if_false, if_true]
    rw [← hrest, ← hsplit, List.append_assoc, List.drop_left]

theorem Level.bareKey (h : c.Level (.code depth .key) c') (hquote : c.atQuote = false)
    (hclose : (c.takeWhile (· ≠ ']')).2.peek = some ']')
    (hname : Text.trim (String.ofList (c.takeWhile (· ≠ ']')).1) ≠ "") :
    Text.trim (String.ofList (c'.takeWhile (· ≠ ']')).1) =
        Text.trim (String.ofList (c.takeWhile (· ≠ ']')).1) ∧
      (c.takeWhile (· ≠ ']')).2.Level (.code depth .behind) (c'.takeWhile (· ≠ ']')).2 := by
  obtain ⟨x, hx⟩ : ∃ x, c.peek = some x := by
    obtain ⟨pos, rest⟩ := c
    cases rest with
    | nil => cases hclose
    | cons x rest => exact ⟨x, rfl⟩
  have hblank := h.stops_peek hx
  have hne : x ≠ ']' := by
    rintro rfl
    refine hname ?_
    simp only [Cursor.takeWhile, rest_of_peek hx]
    rfl
  have hmark : ¬(x = '"' ∨ x = '\'') := fun hmark => by
    rw [atQuote_iff.mpr ⟨x, hx, hmark⟩] at hquote
    cases hquote
  obtain ⟨run, gap, tail, hkey, hcut⟩ := exists_bareKey hx hblank hmark hne hclose
  obtain ⟨run', rest', hrun', hrest', hrespaced⟩ := h.cut hx
  rw [hcut] at hrun' hrespaced
  obtain rfl : run = run' := by
    have htext := hkey.text
    rw [rest_of_peek hx, hrun', List.append_assoc] at htext
    exact ((List.append_left_inj _).mp (List.tail_eq_of_cons_eq htext)).symm
  -- There may be other blanks in the other text, but there is the same bracket.
  have hskip := hrespaced.dropBlanks
  rw [List.dropWhile_append_of_pos hkey.blank,
    (stops_of_head? hkey.bracket (by decide)).dropWhile] at hskip
  have hkey' : BareKey c'.rest (x :: run) (rest'.takeWhile Text.isBlank)
      (rest'.dropWhile Text.isBlank) := by
    refine ⟨?_, hkey.free, fun y hy => List.mem_takeWhile_imp hy,
      (hskip.head?_eq (stops_dropWhile _ _)).trans hkey.bracket⟩
    rw [List.append_assoc, List.takeWhile_append_dropWhile, rest_of_peek (h.peek.trans hx), hrest']
    rfl
  refine ⟨(hkey'.trim hblank).trans (hkey.trim hblank).symm, ?_, ?_⟩
  · change Respaced IsLoose _ (c.rest.dropWhile (· ≠ ']')) (c'.rest.dropWhile (· ≠ ']'))
    rw [hkey.split.2, hkey'.split.2]
    exact hskip
  · change Stops Text.isBlank (c'.rest.dropWhile (· ≠ ']'))
    rw [hkey'.split.2]
    exact stops_dropWhile _ _

theorem Level.key (h : c.Level (.code depth place) c') (hplace : place ≠ .key)
    (hopen : c.peek = some '[') {id : Ident} (hid : c.key = .ok (id, after)) :
    ∃ id' after', c'.key = .ok (id', after') ∧ id'.unplaced = id.unplaced ∧
      after.Apart (.code depth .behind) after' := by
  have hnext := h.next hopen (by decide) (fun hkey => absurd hkey hplace)
    (by simp [Cursor.atNumber, hopen])
  have hinner := hnext.skipBlanks
  rcases key_eq_ok.mp hid with ⟨hat, name, c₁, hname, hid⟩ | ⟨hat, hid⟩
  · obtain ⟨c₁', hname', hafter⟩ := hinner.quoted hname hat
    obtain ⟨id', after', hid', hbare, hafter⟩ := hafter.skipBlanks.keyBefore c'.pos hid
    exact ⟨id', after', key_eq_ok.mpr (.inl ⟨hinner.atQuote.trans hat, name, c₁', hname', hid'⟩),
      hbare, hafter⟩
  · obtain ⟨hclose, hne, -⟩ := keyBefore_eq_ok.mp hid
    obtain ⟨hname, hlevel⟩ := hinner.bareKey hat (eat?_next hclose).1 hne
    obtain ⟨id', after', hid', hbare, hafter⟩ := hlevel.keyBefore c'.pos hid
    rw [← hname] at hid'
    exact ⟨id', after', key_eq_ok.mpr (.inr ⟨hinner.atQuote.trans hat, hid'⟩), hbare, hafter⟩

end Cursor

end PathTemplate.Template
