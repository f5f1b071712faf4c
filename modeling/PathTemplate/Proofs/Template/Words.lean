import Mathlib.Data.List.TakeWhile
import PathTemplate.Proofs.Template.Readers

namespace PathTemplate.Template

/-- Nothing with the property comes next. -/
def Stops (p : Char → Bool) (rest : List Char) : Prop := ∀ x ∈ rest.head?, p x = false

theorem stops_cons {p : Char → Bool} {x : Char} {rest : List Char} :
    Stops p (x :: rest) ↔ p x = false := by
  simp [Stops]

theorem stops_nil {p : Char → Bool} : Stops p [] := by
  simp [Stops]

theorem Stops.mono {p q : Char → Bool} {rest : List Char} (h : Stops q rest)
    (hpq : ∀ x, p x → q x) : Stops p rest := by
  intro x hx
  have hq := h x hx
  cases hp : p x with
  | false => rfl
  | true => simp [hpq x hp] at hq

theorem takeWhile_append_of_stops {p : Char → Bool} {rest : List Char} (h : Stops p rest)
    (cs : List Char) : (cs ++ rest).takeWhile p = cs.takeWhile p := by
  induction cs with
  | nil =>
    cases rest with
    | nil => rfl
    | cons x rest => simp [stops_cons.mp h]
  | cons x cs ih => simp only [List.cons_append, List.takeWhile_cons, ih]

theorem dropWhile_append_of_stops {p : Char → Bool} {rest : List Char} (h : Stops p rest)
    (cs : List Char) : (cs ++ rest).dropWhile p = cs.dropWhile p ++ rest := by
  induction cs with
  | nil =>
    cases rest with
    | nil => rfl
    | cons x rest => simp [stops_cons.mp h]
  | cons x cs ih =>
    simp only [List.cons_append, List.dropWhile_cons, ih]
    split <;> rfl

theorem stops_dropWhile (p : Char → Bool) (cs : List Char) : Stops p (cs.dropWhile p) := by
  induction cs with
  | nil => exact stops_nil
  | cons x cs ih =>
    by_cases hx : p x
    · simpa [List.dropWhile_cons, hx] using ih
    · simp [hx, stops_cons]

namespace Cursor

@[simp] theorem peek_cons (pos : Nat) (x : Char) (cs : List Char) :
    peek ⟨pos, x :: cs⟩ = some x := rfl

@[simp] theorem next_cons (pos : Nat) (x : Char) (cs : List Char) :
    next ⟨pos, x :: cs⟩ = ⟨pos + x.utf8Size, cs⟩ := rfl

theorem eat?_cons (pos : Nat) (x : Char) (cs : List Char) (y : Char) :
    eat? ⟨pos, x :: cs⟩ y = if x = y then some ⟨pos + x.utf8Size, cs⟩ else none := by
  simp [eat?]

theorem takeWhile_mk (pos : Nat) (cs : List Char) (p : Char → Bool) :
    takeWhile ⟨pos, cs⟩ p = (cs.takeWhile p, ⟨pos + Text.byteLength (cs.takeWhile p),
      cs.dropWhile p⟩) := rfl

theorem skipBlanks_of_stops {pos : Nat} {cs : List Char} (h : Stops Text.isBlank cs) :
    skipBlanks ⟨pos, cs⟩ = ⟨pos, cs⟩ := by
  cases cs with
  | nil => rfl
  | cons x cs => simp [skipBlanks, takeWhile_mk, stops_cons.mp h, Text.byteLength]

@[simp] theorem isBlank_space : Text.isBlank ' ' = true := by decide

theorem skipBlanks_space {cs : List Char} (h : Stops Text.isBlank cs) (pos : Nat) :
    skipBlanks ⟨pos, ' ' :: cs⟩ = ⟨pos + 1, cs⟩ := by
  have htake := takeWhile_append_of_stops h [' ']
  have hdrop := dropWhile_append_of_stops h [' ']
  have hsize : Text.byteLength [' '] = 1 := rfl
  simp only [List.takeWhile_cons, List.dropWhile_cons, isBlank_space, List.cons_append,
    List.nil_append, if_true, List.takeWhile_nil, List.dropWhile_nil] at htake hdrop
  simp only [skipBlanks, takeWhile_mk, List.takeWhile_cons, List.dropWhile_cons, isBlank_space,
    if_true, htake, hdrop, hsize]

theorem advance_rest (c : Cursor) (n : Nat) : (c.advance n).rest = c.rest.drop n := by
  induction n generalizing c with
  | zero => rfl
  | succ n ih =>
    obtain ⟨pos, rest⟩ := c
    cases rest with
    | nil => simp [advance, next, ih]
    | cons x rest => simp [advance, ih]

theorem isNameChar_of_isNameStart {x : Char} (h : isNameStart x) : isNameChar x := by
  simp only [isNameStart, isNameChar, Text.isWordChar, Bool.or_eq_true] at h ⊢
  rcases h with h | h
  · exact .inl (.inl h)
  · exact .inr h

theorem isNameChar_of_isDigit {x : Char} (h : x.isDigit) : isNameChar x := by
  simp [isNameChar, Text.isWordChar, Text.isNumeral, h]

/-- None of the blanks can stand in a name. -/
theorem isNameChar_of_isBlank {x : Char} (h : Text.isBlank x) : isNameChar x = false := by
  have hblanks : ∀ r ∈ Text.blanks, ∀ n, n < 0x3001 → r.1 ≤ n → n ≤ r.2 →
      isNameChar (Char.ofNat n) = false := by
    have htable : ∀ r ∈ Text.blanks, ∀ k < r.2 - r.1 + 1,
        isNameChar (Char.ofNat (r.1 + k)) = false := by
      decide +kernel
    intro r hr n _ hlow hhigh
    have hk := htable r hr (n - r.1) (by omega)
    rwa [show r.1 + (n - r.1) = n by omega] at hk
  obtain ⟨r, hr, hx⟩ := List.any_eq_true.mp h
  simp only [Bool.and_eq_true, decide_eq_true_eq] at hx
  have hbound : ∀ r ∈ Text.blanks, r.2 < 0x3001 := by decide
  have := hblanks r hr x.toNat (by have := hbound r hr; omega) hx.1 hx.2
  rwa [Char.ofNat_toNat] at this

theorem isNameStart_of_isBlank {x : Char} (h : Text.isBlank x) : isNameStart x = false := by
  cases hx : isNameStart x with
  | false => rfl
  | true => simpa [isNameChar_of_isBlank h] using isNameChar_of_isNameStart hx

structure IsName (s : String) : Prop where
  first : s.toList.head?.any isNameStart
  all : ∀ x ∈ s.toList, isNameChar x

theorem IsName.cons {s : String} (h : IsName s) :
    ∃ x tail, s.toList = x :: tail ∧ isNameStart x := by
  have hfirst := h.first
  cases hs : s.toList with
  | nil => simp [hs] at hfirst
  | cons x tail => exact ⟨x, tail, rfl, by simpa [hs] using hfirst⟩

theorem ident?_eq_some {c after : Cursor} {id : Ident} (h : c.ident? = some (id, after)) :
    IsName id.name ∧ id.name.toList = c.rest.takeWhile isNameChar ∧
      after.rest = c.rest.dropWhile isNameChar := by
  unfold ident? at h
  split at h
  next hat =>
    cases h
    obtain ⟨pos, rest⟩ := c
    have hlist : (String.ofList (rest.takeWhile isNameChar)).toList =
      rest.takeWhile isNameChar := String.toList_ofList
    refine ⟨⟨?_, ?_⟩, hlist, rfl⟩
    · cases rest with
      | nil => simp [atName, peek] at hat
      | cons x rest =>
        have hx : isNameStart x := by simpa [atName] using hat
        simp only [List.takeWhile_cons, isNameChar_of_isNameStart hx, if_true] at hlist ⊢
        rw [hlist]
        simpa using hx
    · intro x hx
      rw [hlist] at hx
      exact List.mem_takeWhile_imp hx
  next => cases h

theorem ident?_name {s : String} (hs : IsName s) {rest : List Char} (hrest : Stops isNameChar rest)
    (pos : Nat) : ∃ span stop, ident? ⟨pos, s.toList ++ rest⟩ = some (⟨s, span⟩, ⟨stop, rest⟩) := by
  obtain ⟨x, tail, hx, hstart⟩ := hs.cons
  have hat : atName ⟨pos, s.toList ++ rest⟩ := by
    rw [hx]
    simpa [atName] using hstart
  have htake : (s.toList ++ rest).takeWhile isNameChar = s.toList := by
    rw [takeWhile_append_of_stops hrest, List.takeWhile_eq_self_iff.mpr hs.all]
  have hdrop : (s.toList ++ rest).dropWhile isNameChar = rest := by
    rw [dropWhile_append_of_stops hrest, List.dropWhile_eq_nil_iff.mpr hs.all, List.nil_append]
  simp only [ident?, hat, if_true, takeWhile_mk, htake, hdrop, String.ofList_toList]
  exact ⟨_, _, rfl⟩

/-- A word is there exactly when it is all of the name characters that come next. -/
theorem word?_eq {w : String} (hw : ∀ x ∈ w.toList, isNameChar x) (c : Cursor) :
    c.word? w =
      if c.rest.takeWhile isNameChar = w.toList then some (c.advance w.length) else none := by
  unfold word?
  have hpeek : (c.advance w.length).peek = (c.rest.drop w.length).head? := by
    rw [peek, advance_rest]
  by_cases hpre : w.toList.isPrefixOf c.rest
  · obtain ⟨tail, htail⟩ := List.isPrefixOf_iff_prefix.mp hpre
    have hdrop : c.rest.drop w.length = tail := by
      rw [← htail, ← String.length_toList, List.drop_left]
    simp only [hpre, if_true, hpeek, hdrop]
    by_cases hgo : tail.head?.any isNameChar
    · rw [if_pos hgo, if_neg]
      rw [← htail, List.takeWhile_append_of_pos hw]
      cases tail with
      | nil => simp at hgo
      | cons x tail =>
        have hx : isNameChar x := by simpa using hgo
        simp [hx]
    · rw [if_neg hgo, if_pos]
      have hstops : Stops isNameChar tail := by
        intro x hx
        rw [Option.mem_def] at hx
        simpa [hx] using hgo
      rw [← htail, takeWhile_append_of_stops hstops, List.takeWhile_eq_self_iff.mpr hw]
  · rw [if_neg hpre, if_neg]
    intro heq
    refine hpre (List.isPrefixOf_iff_prefix.mpr ?_)
    rw [← heq]
    exact List.takeWhile_prefix _

theorem word?_rest {w : String} (hw : ∀ x ∈ w.toList, isNameChar x) {c after : Cursor}
    (h : c.word? w = some after) : after.rest = c.rest.dropWhile isNameChar := by
  rw [word?_eq hw] at h
  split at h
  next hrun =>
    cases h
    have hsplit := List.takeWhile_append_dropWhile (p := isNameChar) (l := c.rest)
    rw [hrun] at hsplit
    have hdrop := congrArg (List.drop w.length) hsplit
    rw [← String.length_toList, List.drop_left] at hdrop
    rw [advance_rest, ← String.length_toList, hdrop]
  next => cases h

theorem word?_advance {w : String} (hw : ∀ x ∈ w.toList, isNameChar x) {c : Cursor}
    (h : c.rest.takeWhile isNameChar = w.toList) :
    c.word? w = some (c.advance w.length) ∧
      (c.advance w.length).peek = (c.rest.dropWhile isNameChar).head? := by
  have hword : c.word? w = some (c.advance w.length) := by rw [word?_eq hw, if_pos h]
  exact ⟨hword, by rw [peek, word?_rest hw hword]⟩

def continuesPath (x : Char) : Bool := x = '.' || x = '(' || x = '['

def boolText (b : Bool) : List Char := if b then "true".toList else "false".toList

theorem isNameChar_boolText (b : Bool) : ∀ x ∈ boolText b, isNameChar x := by
  rw [← List.all_eq_true]
  cases b <;> decide

def aloneBefore (b : Bool) (after : Cursor) : Option (Bool × Cursor) :=
  match after.peek with
  | some '.' | some '(' | some '[' => none
  | _ => some (b, after)

theorem aloneBefore_eq (b : Bool) (after : Cursor) :
    aloneBefore b after = if after.peek.any continuesPath then none else some (b, after) := by
  unfold aloneBefore
  split
  next h => simp [h, continuesPath]
  next h => simp [h, continuesPath]
  next h => simp [h, continuesPath]
  next hdot hopen hbracket =>
    cases hpeek : after.peek with
    | none => rfl
    | some x =>
      have hx : continuesPath x = false := by
        simp only [hpeek, Option.some.injEq] at hdot hopen hbracket
        simp only [continuesPath, Bool.or_eq_false_iff, decide_eq_false_iff_not]
        exact ⟨⟨hdot, hopen⟩, hbracket⟩
      simp [hx]

theorem bool?_of_run {c : Cursor} {b : Bool} (h : c.rest.takeWhile isNameChar = boolText b) :
    c.bool? = if (c.rest.dropWhile isNameChar).head?.any continuesPath then none
      else some (b, c.advance (boolText b).length) := by
  cases b with
  | true =>
    obtain ⟨hword, hpeek⟩ := word?_advance (isNameChar_boolText true) h
    simp only [bool?, hword]
    rw [← hpeek]
    exact aloneBefore_eq true _
  | false =>
    have hnot : c.word? "true" = none := by
      rw [word?_eq (isNameChar_boolText true), if_neg]
      rw [h]
      decide
    obtain ⟨hword, hpeek⟩ := word?_advance (isNameChar_boolText false) h
    simp only [bool?, hnot, hword, Option.bind_some]
    rw [← hpeek]
    exact aloneBefore_eq false _

theorem bool?_of_other {c : Cursor} (h : ∀ b, c.rest.takeWhile isNameChar ≠ boolText b) :
    c.bool? = none := by
  have htrue : c.word? "true" = none := by
    rw [word?_eq (isNameChar_boolText true)]
    exact if_neg (h true)
  have hfalse : c.word? "false" = none := by
    rw [word?_eq (isNameChar_boolText false)]
    exact if_neg (h false)
  simp only [bool?, htrue, hfalse, Option.bind_none]

theorem bool?_boolText (b : Bool) {rest : List Char} (hname : Stops isNameChar rest)
    (hpath : Stops continuesPath rest) (pos : Nat) :
    ∃ stop, bool? ⟨pos, boolText b ++ rest⟩ = some (b, ⟨stop, rest⟩) := by
  have hrun : (boolText b ++ rest).takeWhile isNameChar = boolText b := by
    rw [takeWhile_append_of_stops hname,
      List.takeWhile_eq_self_iff.mpr (isNameChar_boolText b)]
  have hrest : (boolText b ++ rest).dropWhile isNameChar = rest := by
    rw [dropWhile_append_of_stops hname,
      List.dropWhile_eq_nil_iff.mpr (isNameChar_boolText b), List.nil_append]
  have hstop : rest.head?.any continuesPath = false := by
    cases hx : rest.head? with
    | none => rfl
    | some x => exact hpath x hx
  have hafter : (advance ⟨pos, boolText b ++ rest⟩ (boolText b).length).rest = rest := by
    rw [advance_rest, List.drop_left]
  rw [bool?_of_run (c := ⟨pos, boolText b ++ rest⟩) hrun, hrest, hstop]
  generalize advance ⟨pos, boolText b ++ rest⟩ (boolText b).length = after at hafter ⊢
  subst hafter
  exact ⟨after.pos, rfl⟩

def escape (x : Char) : List Char := if x = '\\' ∨ x = '"' then ['\\', x] else [x]

def quotedText (s : String) : List Char := '"' :: s.toList.flatMap escape ++ ['"']

theorem quotedOnto_cons (quote : Char) (pos : Nat) (out : List Char) (x : Char)
    (cs : List Char) : quotedOnto quote pos out (x :: cs) =
      if x = quote then .ok (out.reverse, ⟨pos + x.utf8Size, cs⟩)
      else if x = '\\' then
        match cs with
        | [] => .error (pos + x.utf8Size)
        | y :: cs => quotedOnto quote (pos + x.utf8Size + y.utf8Size)
          ((unescape y).reverse ++ out) cs
      else quotedOnto quote (pos + x.utf8Size) (x :: out) cs :=
  quotedOnto.eq_def quote pos out (x :: cs)

theorem quotedOnto_escape (cs rest : List Char) (pos : Nat) (out : List Char) :
    ∃ stop, quotedOnto '"' pos out (cs.flatMap escape ++ '"' :: rest) =
      .ok (out.reverse ++ cs, ⟨stop, rest⟩) := by
  induction cs generalizing pos out with
  | nil =>
    simp only [List.flatMap_nil, List.nil_append, quotedOnto_cons, if_true, List.append_nil]
    exact ⟨_, rfl⟩
  | cons x cs ih =>
    by_cases hx : x = '\\' ∨ x = '"'
    · obtain ⟨stop, ih⟩ := ih (pos + '\\'.utf8Size + x.utf8Size) (x :: out)
      have hplain : (unescape x).reverse ++ out = x :: out := by
        rcases hx with rfl | rfl <;> rfl
      refine ⟨stop, ?_⟩
      have hquote : ('\\' : Char) ≠ '"' := by decide
      simp only [List.flatMap_cons, escape, hx, if_true, List.cons_append, List.nil_append,
        quotedOnto_cons _ _ _ '\\', hquote, if_false, hplain]
      simpa using ih
    · obtain ⟨stop, ih⟩ := ih (pos + x.utf8Size) (x :: out)
      refine ⟨stop, ?_⟩
      rw [not_or] at hx
      simp only [List.flatMap_cons, escape, hx.1, hx.2, or_self, if_false, List.cons_append,
        List.nil_append, quotedOnto_cons _ _ _ x]
      simpa using ih

theorem quoted_quotedText (s : String) (rest : List Char) (pos : Nat) :
    ∃ stop, quoted ⟨pos, quotedText s ++ rest⟩ = .ok (s, ⟨stop, rest⟩) := by
  obtain ⟨stop, h⟩ := quotedOnto_escape s.toList rest (pos + '"'.utf8Size) []
  refine ⟨stop, ?_⟩
  simp only [quotedText, List.cons_append, List.append_assoc, List.nil_append, quoted, peek_cons,
    next_cons, Option.getD_some, h, List.reverse_nil, String.ofList_toList]

theorem atQuote_quotedText (s : String) (rest : List Char) (pos : Nat) :
    atQuote ⟨pos, quotedText s ++ rest⟩ = true := by
  simp [atQuote, quotedText, peek_cons]

def keyText (s : String) : List Char := '[' :: quotedText s ++ [']']

theorem key_keyText {s : String} (hs : s ≠ "") (rest : List Char) (pos : Nat) :
    ∃ span stop, key ⟨pos, keyText s ++ rest⟩ = .ok (⟨s, span⟩, ⟨stop, rest⟩) := by
  have hquote : Stops Text.isBlank (quotedText s ++ ']' :: rest) := by
    simp only [quotedText, List.cons_append, stops_cons]
    decide
  have hclose : Stops Text.isBlank (']' :: rest) := by
    rw [stops_cons]
    decide
  obtain ⟨stop, h⟩ := quoted_quotedText s (']' :: rest) (pos + '['.utf8Size)
  have hne : s.isEmpty = false := by simpa using hs
  simp only [keyText, List.cons_append, List.append_assoc, List.nil_append, key, next_cons,
    skipBlanks_of_stops hquote, atQuote_quotedText, if_true, h, bind, Except.bind, pure,
    Except.pure, skipBlanks_of_stops hclose, eat?_cons, hne, Bool.false_eq_true, if_false]
  exact ⟨_, _, rfl⟩

theorem key_name {c after : Cursor} {id : Ident} (h : c.key = .ok (id, after)) : id.name ≠ "" := by
  rcases key_eq_ok.mp h with ⟨-, name, c', -, h⟩ | ⟨-, h⟩
  all_goals
    obtain ⟨-, hname, rfl⟩ := keyBefore_eq_ok.mp h
    exact hname

end Cursor

end PathTemplate.Template
