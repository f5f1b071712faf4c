import PathTemplate.Proofs.Template.Written

namespace PathTemplate.Template

open Cursor

def goesOn (x : Char) : Bool := isNameChar x || continuesPath x

theorem Stops.name {rest : List Char} (h : Stops goesOn rest) : Stops isNameChar rest :=
  h.mono fun x hx => by simp [goesOn, hx]

theorem Stops.path {rest : List Char} (h : Stops goesOn rest) : Stops continuesPath rest :=
  h.mono fun x hx => by simp [goesOn, hx]

theorem Stops.number {rest : List Char} (h : Stops goesOn rest) : Stops isNumberChar rest := by
  refine h.mono fun x hx => ?_
  simp only [isNumberChar, Bool.or_eq_true, decide_eq_true_eq] at hx
  rcases hx with ((hx | rfl) | rfl) | rfl
  · simp [goesOn, isNameChar_of_isDigit hx]
  · decide
  · decide
  · decide

inductive Follows : List Char → Prop where
  | close {x : Char} {rest : List Char} (h : x ∈ ['}', ',', ')']) : Follows (x :: rest)
  | mark {x : Char} {rest : List Char} (h : x ∈ ['|', '?']) : Follows (' ' :: x :: rest)

theorem Follows.stops {rest : List Char} (h : Follows rest) : Stops goesOn rest := by
  cases h with
  | close h =>
    rw [stops_cons]
    simp only [List.mem_cons, List.not_mem_nil, or_false] at h
    rcases h with rfl | rfl | rfl <;> decide
  | mark h =>
    rw [stops_cons]
    decide

/-- Behind the blanks of what follows stands neither an operator nor a word. -/
theorem Follows.skip {rest : List Char} (h : Follows rest) :
    ∃ x tail, rest.dropWhile Text.isBlank = x :: tail ∧ Text.isBlank x = false ∧
      Operator.ofSymbol? x = none ∧ isNameChar x = false := by
  cases h with
  | @close x rest h =>
    have hx : Text.isBlank x = false ∧ Operator.ofSymbol? x = none ∧ isNameChar x = false := by
      simp only [List.mem_cons, List.not_mem_nil, or_false] at h
      rcases h with rfl | rfl | rfl <;> decide
    exact ⟨x, rest, List.dropWhile_cons_of_neg (by simp [hx]), hx⟩
  | @mark x rest h =>
    have hx : Text.isBlank x = false ∧ Operator.ofSymbol? x = none ∧ isNameChar x = false := by
      simp only [List.mem_cons, List.not_mem_nil, or_false] at h
      rcases h with rfl | rfl <;> decide
    refine ⟨x, rest, ?_, hx⟩
    rw [List.dropWhile_cons_of_pos isBlank_space, List.dropWhile_cons_of_neg (by simp [hx])]

theorem Stops.dropWhile {p : Char → Bool} {rest : List Char} (h : Stops p rest) :
    rest.dropWhile p = rest := by
  simpa using dropWhile_append_of_stops h []

/-- Text that starts neither with a blank nor with a closing bracket. -/
def Opens (cs : List Char) : Prop :=
  ∃ x tail, cs = x :: tail ∧ Text.isBlank x = false ∧ x ≠ ')' ∧ x ≠ '}'

theorem Opens.append {cs : List Char} (h : Opens cs) (rest : List Char) : Opens (cs ++ rest) := by
  obtain ⟨x, tail, rfl, hx⟩ := h
  exact ⟨x, tail ++ rest, rfl, hx⟩

theorem Opens.stops {cs : List Char} (h : Opens cs) : Stops Text.isBlank cs := by
  obtain ⟨x, tail, rfl, hx, -⟩ := h
  exact stops_cons.mpr hx

theorem opens_of_isNameStart {x : Char} (h : isNameStart x) (tail : List Char) :
    Opens (x :: tail) := by
  refine ⟨x, tail, rfl, ?_, ?_, ?_⟩
  · cases hb : Text.isBlank x with
    | false => rfl
    | true => simp [isNameStart_of_isBlank hb] at h
  · rintro rfl
    exact absurd h (by decide)
  · rintro rfl
    exact absurd h (by decide)

theorem Cursor.IsName.opens {s : String} (h : IsName s) : Opens s.toList := by
  obtain ⟨x, tail, hs, hx⟩ := h.cons
  rw [hs]
  exact opens_of_isNameStart hx tail

theorem Cursor.skipBlanks_to {c : Cursor} {rest : List Char}
    (h : c.rest.dropWhile Text.isBlank = rest) : ∃ stop, c.skipBlanks = ⟨stop, rest⟩ := by
  subst h
  exact ⟨_, rfl⟩

theorem Cursor.ident_name {s : String} (hs : IsName s) {rest : List Char}
    (hrest : Stops isNameChar rest) (what : String) (pos : Nat) :
    ∃ span stop, ident ⟨pos, s.toList ++ rest⟩ what = .ok (⟨s, span⟩, ⟨stop, rest⟩) := by
  obtain ⟨span, stop, h⟩ := ident?_name hs hrest pos
  exact ⟨span, stop, by simp only [ident, h]⟩

theorem Cursor.atNumber_operandText (form : FloatForm) {n : Operand} (hn : IsNumeral n)
    {rest : List Char} (hrest : Stops isNumberChar rest) (pos : Nat) :
    atNumber ⟨pos, operandText form n ++ rest⟩ ∧ ∃ x tail, operandText form n ++ rest = x :: tail ∧
      Text.isBlank x = false ∧ isNameStart x = false ∧ x ≠ '"' ∧ x ≠ '\'' ∧ x ≠ '$' := by
  obtain ⟨stop, h⟩ := number_operandText form hn hrest pos
  have hat := atNumber_of_number h
  refine ⟨hat, ?_⟩
  generalize operandText form n ++ rest = cs at hat
  cases cs with
  | nil => simp [atNumber, peek] at hat
  | cons x tail => exact ⟨x, tail, rfl, atNumber_first hat⟩

theorem Cursor.bool?_of_first {x : Char} (hx : isNameStart x = false) (cs : List Char) (pos : Nat) :
    bool? ⟨pos, x :: cs⟩ = none := by
  refine bool?_of_other ?_
  intro b heq
  have hstart : (boolText b).head?.any isNameStart := by cases b <;> decide
  rw [← heq] at hstart
  by_cases hc : isNameChar x <;> simp [hc, hx] at hstart

theorem Cursor.literal_reads (form : FloatForm) {kind : LiteralKind} (hkind : kind.IsWritten)
    (hword : ∀ b, kind ≠ .bool b) (hparam : ∀ name, kind ≠ .param name) {rest : List Char}
    (hrest : Stops goesOn rest) (pos : Nat) :
    (atQuote ⟨pos, literalText form kind ++ rest⟩ ||
      atNumber ⟨pos, literalText form kind ++ rest⟩) ∧
    bool? ⟨pos, literalText form kind ++ rest⟩ = none ∧
    eat? ⟨pos, literalText form kind ++ rest⟩ '$' = none ∧ ∃ span stop,
      literal ⟨pos, literalText form kind ++ rest⟩ = .ok (⟨kind, span⟩, ⟨stop, rest⟩) := by
  cases kind with
  | string s =>
    have hquote : isNameStart '"' = false := by decide
    obtain ⟨stop, h⟩ := quoted_quotedText s rest pos
    refine ⟨rfl, bool?_of_first hquote _ pos, rfl, ?_⟩
    simp only [literal, literalText, atQuote_quotedText, if_true, h, bind, Except.bind, pure,
      Except.pure]
    exact ⟨_, _, rfl⟩
  | number n =>
    obtain ⟨hat, x, tail, hx, -, hname, hdouble, hsingle, hdollar⟩ :=
      atNumber_operandText form hkind hrest.number pos
    obtain ⟨stop, h⟩ := number_operandText form hkind hrest.number pos
    have hquote : atQuote ⟨pos, operandText form n ++ rest⟩ = false := by
      rw [hx]
      simp [atQuote, hdouble, hsingle]
    refine ⟨by simp [literalText, hat], ?_, ?_, ?_⟩
    · rw [literalText, hx]
      exact bool?_of_first hname tail pos
    · rw [literalText, hx, eat?_cons, if_neg hdollar]
    · simp only [literal, literalText, hquote, Bool.false_eq_true, if_false, h, bind, Except.bind,
        pure, Except.pure]
      exact ⟨_, _, rfl⟩
  | bool b => exact absurd rfl (hword b)
  | param name => exact absurd rfl (hparam name)

theorem Cursor.defaultLiteral_reads (form : FloatForm) {kind : LiteralKind}
    (hkind : kind.IsWritten) {rest : List Char} (hrest : Stops goesOn rest) (pos : Nat) :
    ∃ span stop, defaultLiteral ⟨pos, literalText form kind ++ rest⟩ =
      .ok (⟨kind, span⟩, ⟨stop, rest⟩) := by
  by_cases hparam : ∃ name, kind = .param name
  · obtain ⟨name, rfl⟩ := hparam
    obtain ⟨span, stop, h⟩ := ident_name hkind hrest.name "parameter name after `$`"
      (pos + '$'.utf8Size)
    simp only [defaultLiteral, literalText, List.cons_append, eat?_cons, if_true, h, bind,
      Except.bind, pure, Except.pure]
    exact ⟨_, _, rfl⟩
  · by_cases hbool : ∃ b, kind = .bool b
    · obtain ⟨b, rfl⟩ := hbool
      obtain ⟨stop, h⟩ := bool?_boolText b hrest.name hrest.path pos
      have hdollar : eat? ⟨pos, boolText b ++ rest⟩ '$' = none := by cases b <;> rfl
      simp only [defaultLiteral, literalText, hdollar, h, pure, Except.pure]
      exact ⟨_, _, rfl⟩
    · obtain ⟨hat, hnone, hdollar, span, stop, h⟩ := literal_reads form hkind
        (fun b hb => hbool ⟨b, hb⟩) (fun name hname => hparam ⟨name, hname⟩) hrest pos
      simp only [defaultLiteral, hdollar, hnone, hat, if_true, h]
      exact ⟨_, _, rfl⟩

theorem Cursor.literalText_opens (form : FloatForm) {kind : LiteralKind} (hkind : kind.IsWritten)
    {rest : List Char} (hrest : Stops goesOn rest) : Opens (literalText form kind ++ rest) := by
  cases kind with
  | string s => exact ⟨'"', _, rfl, by decide⟩
  | number n =>
    obtain ⟨hat, x, tail, hx, hblank, -⟩ := atNumber_operandText form hkind hrest.number 0
    rw [hx] at hat
    refine ⟨x, tail, hx, hblank, ?_, ?_⟩
    · rintro rfl
      simp [atNumber] at hat
    · rintro rfl
      simp [atNumber] at hat
  | bool b =>
    cases b with
    | true => exact ⟨'t', _, rfl, by decide⟩
    | false => exact ⟨'f', _, rfl, by decide⟩
  | param name => exact ⟨'$', _, rfl, by decide⟩

end PathTemplate.Template
