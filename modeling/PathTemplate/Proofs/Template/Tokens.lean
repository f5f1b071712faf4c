import Mathlib.Data.List.DropRight
import PathTemplate.Proofs.Template.Advancing

/-!
The tokens of templates, and templates with more blanks between their tokens. Plain text is cut into
characters, and an expression into names, numbers, texts in quotes, keys, marks and blanks. What
comes before a place decides what the token there is: a sign belongs to the number behind it only
where an operand is to come, and a key without quotes stands only behind its bracket.
-/

namespace PathTemplate.Template

open Cursor

/-- A place in an expression, by the token before it. -/
inductive Place where
  | start
  | behind
  /-- A point or the dollar sign of a parameter has been read. -/
  | tied
  | key
  deriving DecidableEq

/-- A place in a template: in plain text, or in an expression and there in some number of joins. -/
inductive Mode where
  | text
  | code (depth : Nat) (place : Place)
  deriving DecidableEq

/-- What is left behind the closing quote. -/
def quotedRest (quote : Char) : List Char → List Char
  | [] => []
  | x :: rest =>
    if x = quote then rest
    else if x = '\\' then
      match rest with
      | [] => []
      | _ :: rest => quotedRest quote rest
    else quotedRest quote rest

/-- A key without quotes: all before the bracket, up to the blanks there. -/
def bareKey (cs : List Char) : List Char := (cs.takeWhile (· ≠ ']')).rdropWhile Text.isBlank

def Mode.afterMark (depth : Nat) : Char → Mode
  | '.' | '$' => .code depth .tied
  | '[' => .code depth .key
  | ']' | ')' => .code depth .behind
  | '{' => .code (depth + 1) .start
  | '}' =>
    match depth with
    | 0 => .text
    | depth + 1 => .code depth .behind
  | _ => .code depth .start

/-- What is left behind the first token of a text, which starts with the character `x`, and the
place that is. -/
def cut : Mode → Char → List Char → List Char × Mode
  | .text, '$', '$' :: cs => (cs, .text)
  | .text, '$', '{' :: cs => (cs, .code 0 .start)
  | .text, _, cs => (cs, .text)
  | .code depth place, x, cs =>
    if Text.isBlank x then (cs, .code depth place)
    else if x = '"' ∨ x = '\'' then (quotedRest x cs, .code depth .behind)
    else if place = .key ∧ x ≠ ']' then
      ((x :: cs).drop (bareKey (x :: cs)).length, .code depth .behind)
    else if isNameStart x then (cs.dropWhile isNameChar, .code depth .behind)
    else if place = .start ∧ atNumber ⟨0, x :: cs⟩ then
      ((scanNumber ⟨0, x :: cs⟩).2.rest, .code depth .behind)
    else if x = '?' ∧ cs.head? = some '?' then (cs.tail, .code depth .start)
    else (cs, .afterMark depth x)

/-- The second text is the first one with blanks put in between tokens, at gaps of some kind. -/
inductive Respaced (gap : Mode → List Char → Prop) : Mode → List Char → List Char → Prop where
  | nil (m : Mode) : Respaced gap m [] []
  | token {m : Mode} {x : Char} {cs cs' : List Char} (run : List Char)
      (hrun : cs = run ++ (cut m x cs).1) (h : Respaced gap (cut m x cs).2 (cut m x cs).1 cs') :
      Respaced gap m (x :: cs) (x :: (run ++ cs'))
  | blank {m : Mode} {b : Char} {cs cs' : List Char} (hb : Text.isBlank b) (hgap : gap m cs)
      (h : Respaced gap m cs cs') : Respaced gap m cs (b :: cs')

def Mode.IsGap (m : Mode) (_ : List Char) : Prop := m ≠ .text

/-- The gaps where a reader passes over blanks. What goes on with a path is tied to what is before
it, as is what stands behind a point or the dollar sign of a parameter. -/
def Mode.IsLoose : Mode → List Char → Prop
  | .text, _ | .code _ .tied, _ => False
  | .code _ .behind, cs => Stops continuesPath cs
  | .code _ _, _ => True

theorem quotedRest_suffix (quote : Char) (cs : List Char) : quotedRest quote cs <:+ cs := by
  fun_induction quotedRest quote cs with
  | case1 => exact List.suffix_rfl
  | case2 => exact List.suffix_cons _ _
  | case3 => exact List.nil_suffix
  | case4 y rest _ ih => exact ih.trans ⟨['\\', y], rfl⟩
  | case5 x rest _ _ ih => exact ih.trans (List.suffix_cons _ _)

theorem Cursor.atNumber_length {c : Cursor} (h : c.atNumber) :
    (c.sign.2.takeWhile Char.isDigit).2.rest.length < c.rest.length := by
  obtain ⟨pos, rest⟩ := c
  cases rest with
  | nil => simp [atNumber, peek] at h
  | cons x rest =>
    have hdrop : ∀ cs : List Char, (cs.dropWhile Char.isDigit).length ≤ cs.length :=
      fun cs => (List.dropWhile_suffix _).length_le
    have hsign : (x = '-' ∨ x = '+') ∨ x.isDigit := by
      simp only [atNumber, peek_cons, Bool.or_eq_true, Bool.and_eq_true, decide_eq_true_eq] at h
      exact h.symm.imp_left And.left
    rcases hsign with (rfl | rfl) | hdigit
    · exact Nat.lt_succ_of_le (hdrop rest)
    · exact Nat.lt_succ_of_le (hdrop rest)
    · have hminus : x ≠ '-' := by
        rintro rfl
        exact absurd hdigit (by decide)
      have hplus : x ≠ '+' := by
        rintro rfl
        exact absurd hdigit (by decide)
      have hsign : sign ⟨pos, x :: rest⟩ = (false, ⟨pos, x :: rest⟩) := by
        simp only [sign, peek_cons]
        split <;> simp_all
      rw [hsign, takeWhile_mk]
      dsimp only
      rw [List.dropWhile_cons_of_pos hdigit]
      exact Nat.lt_succ_of_le (hdrop rest)

theorem scanNumber_suffix {pos : Nat} {x : Char} {cs : List Char} (h : atNumber ⟨pos, x :: cs⟩) :
    (scanNumber ⟨pos, x :: cs⟩).2.rest <:+ cs := by
  have hlength := (scanNumber_reaches_from_whole ⟨pos, x :: cs⟩).length_le.trans_lt
    (atNumber_length h)
  rcases List.suffix_cons_iff.mp (scanNumber_reaches ⟨pos, x :: cs⟩).suffix with heq | hsuffix
  · rw [heq] at hlength
    exact absurd hlength (Nat.lt_irrefl _)
  · exact hsuffix

theorem bareKey_append (cs : List Char) :
    ∃ gap, (∀ b ∈ gap, Text.isBlank b) ∧ cs.takeWhile (· ≠ ']') = bareKey cs ++ gap :=
  ⟨(cs.takeWhile (· ≠ ']')).rtakeWhile Text.isBlank, fun _ hb => List.mem_rtakeWhile_imp hb,
    List.rdropWhile_append_rtakeWhile.symm⟩

theorem bareKey_cons {x : Char} (hb : Text.isBlank x = false) (hx : x ≠ ']') (cs : List Char) :
    ∃ run, bareKey (x :: cs) = x :: run := by
  rw [bareKey, List.takeWhile_cons_of_pos (by simpa using hx), List.rdropWhile]
  rw [List.reverse_cons]
  rw [dropWhile_append_of_stops (stops_cons.mpr hb), List.reverse_append]
  exact ⟨_, rfl⟩

theorem cut_suffix (m : Mode) (x : Char) (cs : List Char) : (cut m x cs).1 <:+ cs := by
  fun_cases cut m x cs with
  | case1 => exact List.suffix_cons _ _
  | case2 => exact List.suffix_cons _ _
  | case5 => exact quotedRest_suffix _ _
  | case6 depth place x cs hb _ hkey =>
    obtain ⟨run, hrun⟩ := bareKey_cons (eq_false_of_ne_true hb) hkey.2 cs
    rw [hrun]
    exact List.drop_suffix run.length cs
  | case7 => exact List.dropWhile_suffix _
  | case8 depth place x cs _ _ _ _ hat => exact scanNumber_suffix hat.2
  | case9 => exact List.tail_suffix _
  | _ => exact List.suffix_rfl

theorem Respaced.refl (gap : Mode → List Char → Prop) (m : Mode) (cs : List Char) :
    Respaced gap m cs cs := by
  induction hn : cs.length using Nat.strongRecOn generalizing m cs with
  | ind n ih =>
    cases cs with
    | nil => exact .nil m
    | cons x cs =>
      obtain ⟨run, hrun⟩ := cut_suffix m x cs
      have hshort : (cut m x cs).1.length < n := by
        have := (cut_suffix m x cs).length_le
        rw [List.length_cons] at hn
        omega
      have htoken := Respaced.token run hrun.symm (ih _ hshort (cut m x cs).2 _ rfl)
      rwa [hrun] at htoken

def marks : List Char :=
  ['.', '$', '[', ']', '(', ')', '{', '}', '|', ',', '+', '-', '*', '/', '%']

/-- A mark stands for itself, except that a key without quotes may start with one, and a number
with a sign. -/
theorem cut_mark {x : Char} (hx : x ∈ marks) {place : Place} {cs : List Char}
    (hkey : place = .key → x = ']') (hnumber : ¬(place = .start ∧ atNumber ⟨0, x :: cs⟩))
    (depth : Nat) : cut (.code depth place) x cs = (cs, .afterMark depth x) := by
  obtain ⟨hblank, hquote, hname, hmark⟩ : Text.isBlank x = false ∧ ¬(x = '"' ∨ x = '\'') ∧
      isNameStart x = false ∧ x ≠ '?' := by
    have hall : marks.all fun x => decide (Text.isBlank x = false ∧ ¬(x = '"' ∨ x = '\'') ∧
        isNameStart x = false ∧ x ≠ '?') := by decide
    exact of_decide_eq_true (List.all_eq_true.mp hall x hx)
  have hbare : ¬(place = .key ∧ x ≠ ']') := fun h => h.2 (hkey h.1)
  simp only [cut, hblank, hquote, hbare, hname, hnumber, hmark, Bool.false_eq_true, false_and,
    if_false]

theorem cut_question (depth : Nat) (cs : List Char) : cut (.code depth .behind) '?' cs =
    (if cs.head? = some '?' then cs.tail else cs, .code depth .start) := by
  have hblank : Text.isBlank '?' = false := by decide
  have hname : isNameStart '?' = false := by decide
  simp only [cut, hblank, hname, Char.reduceEq, reduceCtorEq, or_self, false_and, true_and,
    Bool.false_eq_true, if_false]
  split <;> rfl

theorem cut_char {x : Char} {cs : List Char}
    (hx : x = '$' → ∀ y ∈ cs.head?, y ≠ '$' ∧ y ≠ '{') : cut .text x cs = (cs, .text) := by
  unfold cut
  split
  next => exact absurd rfl (hx rfl _ rfl).1
  next => exact absurd rfl (hx rfl _ rfl).2
  next => rfl
  next => contradiction

section Respaced

variable {gap : Mode → List Char → Prop} {m : Mode} {depth : Nat} {place : Place} {x : Char}
  {cs cs' : List Char}

theorem Respaced.length_le (h : Respaced gap m cs cs') : cs.length ≤ cs'.length := by
  induction h with
  | nil => exact Nat.le_refl 0
  | @token m x cs cs' run hrun _ ih =>
    have hlength := congrArg List.length hrun
    simp only [List.length_cons, List.length_append] at hlength ⊢
    omega
  | blank _ _ _ ih => exact Nat.le_succ_of_le ih

theorem Respaced.token_inv (h : Respaced gap m (x :: cs) cs') (hstops : Stops Text.isBlank cs') :
    ∃ run rest', cs = run ++ (cut m x cs).1 ∧ cs' = x :: (run ++ rest') ∧
      Respaced gap (cut m x cs).2 (cut m x cs).1 rest' := by
  cases h with
  | token run hrun h => exact ⟨run, _, hrun, rfl, h⟩
  | blank hb => simp [stops_cons.mp hstops] at hb

theorem Respaced.head?_eq (h : Respaced gap m cs cs') (hstops : Stops Text.isBlank cs') :
    cs'.head? = cs.head? := by
  cases h with
  | nil | token => rfl
  | blank hb => simp [stops_cons.mp hstops] at hb

theorem Respaced.stops_of_not_gap (h : Respaced gap m cs cs') (hgap : ¬gap m cs)
    (hstops : Stops Text.isBlank cs) : Stops Text.isBlank cs' := by
  cases h with
  | nil => exact hstops
  | token => exact stops_cons.mpr (stops_cons.mp hstops)
  | blank _ h => exact absurd h hgap

theorem Respaced.dropBlanks (h : Respaced gap (.code depth place) cs cs') :
    Respaced gap (.code depth place) (cs.dropWhile Text.isBlank) (cs'.dropWhile Text.isBlank) := by
  generalize hm : Mode.code depth place = m at h
  induction h with
  | nil => exact .nil _
  | @token m x cs cs' run hrun h ih =>
    subst hm
    by_cases hb : Text.isBlank x
    · have hcut : cut (.code depth place) x cs = (cs, .code depth place) := by
        simp only [cut, hb, if_true]
      rw [hcut] at hrun h ih
      obtain rfl : run = [] := by simpa using hrun
      rw [List.dropWhile_cons_of_pos hb, List.dropWhile_cons_of_pos hb]
      exact ih rfl
    · rw [List.dropWhile_cons_of_neg hb, List.dropWhile_cons_of_neg hb]
      exact .token run hrun h
  | blank hb _ _ ih =>
    rw [List.dropWhile_cons_of_pos hb]
    exact ih hm

end Respaced

end PathTemplate.Template
