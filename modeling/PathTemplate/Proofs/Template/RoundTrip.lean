import PathTemplate.Proofs.Template.Chains

namespace PathTemplate.Template

open Cursor

namespace Parser

variable {form : FloatForm} {below : Reader Chain} {P : Chain → Prop}

theorem expression_reads (hbelow : ∀ t, P t → Readable form below t) {e : Expr} (he : e.Fits P)
    (start : Nat) (rest : List Char) :
    Reads (expression below start) Expr.unplaced e (e.print form ++ ['}']) rest := by
  intro pos
  have hopens := (expr_starts hbelow he).opens.append ('}' :: rest)
  have hstops := hopens.stops
  have hend : atEnd ⟨pos, e.print form ++ '}' :: rest⟩ = false := by
    obtain ⟨x, tail, hx, -⟩ := hopens
    rw [hx]
    rfl
  have hbrace : eat? ⟨pos, e.print form ++ '}' :: rest⟩ '}' = none := by
    obtain ⟨x, tail, hx, -, -, hne⟩ := hopens
    rw [hx, eat?_cons, if_neg hne]
  have hclose : Stops Text.isBlank ('}' :: rest) := stops_cons.mpr (by decide)
  obtain ⟨e', stop, hread, hbare⟩ := expr_reads hbelow he (x := '}') (by decide) rest pos
  simp only [List.append_assoc, List.cons_append, List.nil_append, expression,
    skipBlanks_of_stops hstops, hend, Bool.false_eq_true, if_false, hbrace, hread,
    skipBlanks_of_stops hclose, eat?_cons, if_true, bind, Except.bind, pure, Except.pure]
  exact ⟨_, _, rfl, hbare⟩

theorem segmentsOnto_text (below : Reader Chain) (bound start : Nat) (out : List Segment)
    (rest cs text : List Char) (pos : Nat) :
    ∃ stop, segmentsOnto below (cs.length + bound) start text out
        ⟨pos, cs.flatMap double ++ rest⟩ =
      segmentsOnto below bound start (cs.reverse ++ text) out ⟨stop, rest⟩ := by
  induction cs generalizing text pos with
  | nil => exact ⟨pos, by simp⟩
  | cons x cs ih =>
    have hrounds : (x :: cs).length + bound = cs.length + bound + 1 := by
      rw [List.length_cons]
      omega
    have htext : (x :: cs).reverse ++ text = cs.reverse ++ x :: text := by simp
    rw [hrounds, htext]
    by_cases hx : x = '$'
    · subst hx
      obtain ⟨stop, ih⟩ := ih ('$' :: text) (pos + '$'.utf8Size + '$'.utf8Size)
      exact ⟨stop, ih⟩
    · obtain ⟨stop, ih⟩ := ih (x :: text) (pos + x.utf8Size)
      refine ⟨stop, ?_⟩
      simp only [List.flatMap_cons, double, hx, if_false, List.cons_append, List.nil_append]
      rw [segmentsOnto_char fun heq => absurd heq hx]
      exact ih

theorem textSegment_unplaced (start stop : Nat) (text : List Char) :
    (textSegment start stop text).map Segment.unplaced =
      (textSegment 0 0 text).map Segment.unplaced := by
  unfold textSegment
  split <;> rfl

theorem length_le_double (cs : List Char) : cs.length ≤ (cs.flatMap double).length := by
  induction cs with
  | nil => exact Nat.le_refl 0
  | cons x cs ih =>
    have hx : 1 ≤ (double x).length := by
      unfold double
      split <;> simp
    rw [List.flatMap_cons, List.length_append, List.length_cons]
    omega

/-- What is printed is read segment by segment; the text that is pending comes first. -/
theorem segmentsOnto_reads
    (hbelow : ∀ t, Chain.Within maxNesting t → Readable form below t) (segs : List Segment)
    (hfit : SegmentsFit segs) {bound : Nat} (start : Nat) (text : List Char) (out : List Segment)
    (pos : Nat) (hbound : (segs.flatMap (Segment.print form)).length < bound)
    (htext : text = [] ∨ ∀ s span, segs.head? ≠ some (.text s span)) :
    ∃ segs', segmentsOnto below bound start text out ⟨pos, segs.flatMap (Segment.print form)⟩ =
        .ok (out.reverse ++ segs') ∧
      segs'.map Segment.unplaced = (textSegment 0 0 text ++ segs).map Segment.unplaced := by
  induction segs generalizing bound start text out pos with
  | nil =>
    obtain ⟨bound, rfl⟩ := Nat.exists_eq_succ_of_ne_zero (Nat.ne_zero_of_lt hbound)
    refine ⟨textSegment start pos text, ?_, ?_⟩
    · simp only [List.flatMap_nil, segmentsOnto, List.reverse_append, textSegment_reverse]
    · rw [List.append_nil, textSegment_unplaced]
  | cons seg segs ih =>
    cases seg with
    | text s span =>
      obtain ⟨hne, hnext, hfit⟩ := hfit
      -- Texts do not touch, so none is pending.
      have hpending : text = [] := htext.resolve_right fun h => h s span rfl
      subst hpending
      rw [List.flatMap_cons, Segment.print] at hbound ⊢
      have hdouble := length_le_double s.toList
      rw [List.length_append] at hbound
      obtain ⟨rounds, rfl⟩ := Nat.exists_eq_add_of_le
        (show s.toList.length ≤ bound by omega)
      obtain ⟨stop, hread⟩ := segmentsOnto_text below rounds start out
        (segs.flatMap (Segment.print form)) s.toList [] pos
      have hshort : (segs.flatMap (Segment.print form)).length < rounds := by omega
      obtain ⟨segs', hloop, hmap⟩ := ih hfit start (s.toList.reverse ++ []) out stop hshort
        (.inr hnext)
      refine ⟨segs', hread.trans hloop, hmap.trans ?_⟩
      have hsome : s.toList ≠ [] := by simpa using hne
      simp [textSegment, hsome, Segment.unplaced]
    | expr e =>
      obtain ⟨he, hfit⟩ := hfit
      obtain ⟨bound, rfl⟩ := Nat.exists_eq_succ_of_ne_zero (Nat.ne_zero_of_lt hbound)
      have hprint : (Segment.expr e :: segs).flatMap (Segment.print form) =
          '$' :: '{' :: (e.print form ++ ['}'] ++ segs.flatMap (Segment.print form)) := by
        simp [Segment.print]
      rw [hprint] at hbound ⊢
      obtain ⟨e', stop, hread, hbare⟩ := expression_reads hbelow he pos
        (segs.flatMap (Segment.print form)) (pos + '$'.utf8Size + '{'.utf8Size)
      have hshort : (segs.flatMap (Segment.print form)).length < bound := by
        simp only [List.length_cons, List.length_append] at hbound
        omega
      obtain ⟨segs', hloop, hmap⟩ := ih hfit stop [] (.expr e' :: textSegment start pos text ++ out)
        stop hshort (.inl rfl)
      refine ⟨textSegment start pos text ++ .expr e' :: segs', ?_, ?_⟩
      · simp only [segmentsOnto, advance, next_cons, hread, hloop, bind, Except.bind]
        simp [textSegment_reverse]
      · have hnil : textSegment 0 0 [] = [] := rfl
        rw [hnil, List.nil_append] at hmap
        simp only [List.map_append, List.map_cons, textSegment_unplaced start pos, hmap,
          Segment.unplaced, hbare]

end Parser

theorem parse_print_of_fits (form : FloatForm) {t : Template} (h : SegmentsFit t.segments) :
    ∃ t', parse (t.print form) = .ok t' ∧ t'.unplaced = t.unplaced := by
  have hchain := Parser.chain_readable form maxNesting maxNesting
  obtain ⟨segs, hread, hbare⟩ := Parser.segmentsOnto_reads hchain t.segments h 0 [] [] 0
    (Nat.lt_succ_self _) (.inl rfl)
  refine ⟨⟨segs⟩, ?_, congrArg Template.mk hbare⟩
  rw [parse_eq_ok, Template.print, Cursor.ofString, ← String.length_toList, String.toList_ofList]
  exact hread

/-- The canonical text of a template that was read is read as the same template, at other places. -/
theorem parse_print (form : FloatForm) {s : String} {t : Template} (h : parse s = .ok t) :
    ∃ t', parse (t.print form) = .ok t' ∧ t'.unplaced = t.unplaced :=
  parse_print_of_fits form (parse_fits h)

theorem parse_print_mixed :
    ∃ t, parse ("$$\x7bx\x7d $\x7b f( true.a,true )[ k ] -+2 as long|" ++
        "['b\"'].\x7bn??$p,'\\d'\x7d ??-1e999\x7d$$$\x7bh??0.5\x7d") = .ok t ∧
      t.print .exact = "$$\x7bx\x7d $\x7bf(true.a, true)[\"k\"] - 2 as long | " ++
        "[\"b\\\"\"].\x7bn ?? $p, \"\\\\d\"\x7d ?? -1e999\x7d$$" ++
        "$\x7bh ?? 50000000000000000000000000000000000000000000000000000e-53\x7d" ∧
      ∃ t', parse (t.print .exact) = .ok t' ∧ t'.unplaced = t.unplaced := by
  have hread : (parse ("$$\x7bx\x7d $\x7b f( true.a,true )[ k ] -+2 as long|" ++
      "['b\"'].\x7bn??$p,'\\d'\x7d ??-1e999\x7d$$$\x7bh??0.5\x7d")).toOption.map
        (Template.print .exact) = some ("$$\x7bx\x7d $\x7bf(true.a, true)[\"k\"] - 2 as long | " ++
      "[\"b\\\"\"].\x7bn ?? $p, \"\\\\d\"\x7d ?? -1e999\x7d$$" ++
      "$\x7bh ?? 50000000000000000000000000000000000000000000000000000e-53\x7d") := by
    decide +kernel
  obtain ⟨t, ht, htext⟩ := Option.map_eq_some_iff.mp hread
  have hok := eq_ok_of_toOption ht
  exact ⟨t, hok, htext, parse_print .exact hok⟩

end PathTemplate.Template
