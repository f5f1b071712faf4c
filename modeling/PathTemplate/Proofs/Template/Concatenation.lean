import PathTemplate.Proofs.Template.Lookahead
import PathTemplate.Proofs.Template.Shifting

namespace PathTemplate.Template

/-- Segments one after the other. Text at the end of the first and text at the start of the second
are one. -/
def fuse (a b : List Segment) : List Segment :=
  match a.getLast?, b with
  | some (.text s p), .text s' p' :: rest =>
    a.dropLast ++ .text (s ++ s') ⟨p.start, p'.stop⟩ :: rest
  | _, _ => a ++ b

/-- Segments, and then those of another text behind them. -/
def continued (n : Nat) (segs : List Segment) :
    Except ParseError (List Segment) → Except ParseError (List Segment)
  | .ok more => .ok (fuse segs (more.map (Segment.shifted n)))
  | .error e => .error (e.shifted n)

/-- No text comes first. -/
def StartsBare (segs : List Segment) : Prop := ∀ s ∈ segs.head?, ∀ text span, s ≠ .text text span

/-- The same place, with more text behind the end. -/
def Cursor.extended (more : List Char) (c : Cursor) : Cursor := ⟨c.pos, c.rest ++ more⟩

namespace Parser

theorem textSegment_of_ne_nil {text : List Char} (h : text ≠ []) (start stop : Nat) :
    textSegment start stop text = [.text (String.ofList text.reverse) (.ofRange start stop)] := by
  rw [textSegment, if_neg (by simpa using h)]

theorem textSegment_nil (start stop : Nat) : textSegment start stop [] = [] := rfl

theorem textSegment_shifted (n start stop : Nat) (text : List Char) :
    textSegment (start + n) (stop + n) text =
      (textSegment start stop text).map (Segment.shifted n) := by
  by_cases h : text = []
  · subst h
    rfl
  · simp only [textSegment_of_ne_nil h, List.map_cons, List.map_nil, Segment.shifted,
      Span.shifted_ofRange]

theorem fuse_of_startsBare {b : List Segment} (h : StartsBare b) (a : List Segment) :
    fuse a b = a ++ b := by
  unfold fuse
  split
  next s' p' rest _ => exact absurd rfl (h _ rfl s' p')
  next => rfl

theorem fuse_of_endsBare {a : List Segment} (h : StartsBare a.reverse) (b : List Segment) :
    fuse a b = a ++ b := by
  unfold fuse
  split
  next s p _ _ _ hlast =>
    rw [← List.head?_reverse] at hlast
    exact absurd rfl (h _ hlast s p)
  next => rfl

theorem fuse_text {start n stop : Nat} {text text' : List Char} {out rest : List Segment}
    (hstart : text = [] → start = n) (hstop : text' = [] → stop = 0) (hout : StartsBare out)
    (hrest : StartsBare rest) :
    fuse (textSegment start n text ++ out).reverse
        ((textSegment 0 stop text').map (Segment.shifted n) ++ rest) =
      (textSegment start (stop + n) (text' ++ text) ++ out).reverse ++ rest := by
  by_cases htext : text = []
  · subst htext
    obtain rfl := hstart rfl
    have hshift := textSegment_shifted start 0 stop text'
    rw [Nat.zero_add] at hshift
    rw [textSegment_nil, List.nil_append, fuse_of_endsBare (by rwa [List.reverse_reverse]),
      ← hshift, List.append_nil, List.reverse_append, Parser.textSegment_reverse,
      List.append_assoc]
  · by_cases htext' : text' = []
    · subst htext'
      obtain rfl := hstop rfl
      rw [textSegment_nil, List.map_nil, List.nil_append, fuse_of_startsBare hrest, Nat.zero_add,
        List.nil_append]
    · have hboth : text' ++ text ≠ [] := by simp [htext]
      simp only [textSegment_of_ne_nil htext, textSegment_of_ne_nil htext',
        textSegment_of_ne_nil hboth, List.map_cons, List.map_nil, Segment.shifted,
        Span.shifted_ofRange, List.cons_append, List.nil_append, List.reverse_cons]
      unfold fuse
      simp only [List.getLast?_append, List.getLast?_singleton, Option.some_or]
      simp [Span.ofRange]

end Parser

namespace Cursor.Reaches

variable {a b : Cursor}

theorem stop_eq (h : a.Reaches b) :
    b.pos + Text.byteLength b.rest = a.pos + Text.byteLength a.rest := by
  obtain ⟨run, hrest, hpos⟩ := h
  rw [hrest, hpos, Text.byteLength_append, Nat.add_assoc]

theorem getLast?_ne {x : Char} (h : a.Reaches b) (ha : a.rest.getLast? ≠ some x) :
    b.rest.getLast? ≠ some x := by
  obtain ⟨run, hrest, -⟩ := h
  intro hb
  rw [hrest, List.getLast?_append, hb] at ha
  exact ha rfl

end Cursor.Reaches

namespace Parser

def shiftSegments (n : Nat) : Except ParseError (List Segment) → Except ParseError (List Segment)
  | .ok segs => .ok (segs.map (Segment.shifted n))
  | .error e => .error (e.shifted n)

variable {chain : Reader Chain}

theorem segmentsOnto_out (bound start : Nat) (text : List Char) (out : List Segment) (c : Cursor) :
    segmentsOnto chain bound start text out c =
      (segmentsOnto chain bound start text [] c).map (out.reverse ++ ·) := by
  induction bound generalizing start text out c with
  | zero => simp [segmentsOnto, Except.map]
  | succ bound ih =>
    unfold segmentsOnto
    split
    next => simp [Except.map]
    next => exact ih ..
    next =>
      cases expression chain c.pos (c.advance 2) with
      | error e => rfl
      | ok r =>
        obtain ⟨e, after⟩ := r
        show segmentsOnto chain bound after.pos []
            (.expr e :: textSegment start c.pos text ++ out) after =
          (segmentsOnto chain bound after.pos []
            (.expr e :: textSegment start c.pos text ++ []) after).map (out.reverse ++ ·)
        rw [ih, ih after.pos [] (.expr e :: textSegment start c.pos text ++ [])]
        cases segmentsOnto chain bound after.pos [] [] after with
        | error e => rfl
        | ok segs => simp [Except.map]
    next => exact ih ..

theorem segmentsOnto_shifts {n : Nat} (hchain : Shifts n (Chain.shifted n) chain)
    (bound start : Nat) (text : List Char) (out : List Segment) (c : Cursor) :
    segmentsOnto chain bound (start + n) text (out.map (Segment.shifted n)) (c.shifted n) =
      shiftSegments n (segmentsOnto chain bound start text out c) := by
  induction bound generalizing start text out c with
  | zero => simp [segmentsOnto, shiftSegments, textSegment_shifted]
  | succ bound ih =>
    unfold segmentsOnto
    simp only [Cursor.shifted_rest, Cursor.shifted_pos, Cursor.advance_shifted,
      Cursor.next_shifted, expression_shifts hchain, textSegment_shifted]
    split
    next => simp [shiftSegments]
    next => exact ih ..
    next =>
      cases expression chain c.pos (c.advance 2) with
      | error e => rfl
      | ok r =>
        obtain ⟨e, after⟩ := r
        have hrest := ih after.pos [] (.expr e :: textSegment start c.pos text ++ out) after
        rw [List.map_append, List.map_cons] at hrest
        exact hrest
    next => exact ih ..

theorem segmentsOnto_bound (hadv : Advances chain) {bound bound' : Nat} (start : Nat)
    (text : List Char) (out : List Segment) {c : Cursor} (h : c.rest.length < bound)
    (h' : c.rest.length < bound') :
    segmentsOnto chain bound start text out c = segmentsOnto chain bound' start text out c := by
  induction bound generalizing bound' start text out c with
  | zero => exact absurd h (Nat.not_lt_zero _)
  | succ bound ih =>
    obtain ⟨bound', rfl⟩ := Nat.exists_eq_succ_of_ne_zero (Nat.ne_zero_of_lt h')
    obtain ⟨pos, chars⟩ := c
    simp only at h h'
    unfold segmentsOnto
    dsimp only
    split
    next => rfl
    next rest =>
      simp only [List.length_cons] at h h'
      refine ih _ _ _ ?_ ?_ <;> simp only [Cursor.advance, Cursor.next_cons] <;> omega
    next rest =>
      cases hread : expression chain pos (Cursor.advance ⟨pos, '$' :: '{' :: rest⟩ 2) with
      | error e => rfl
      | ok r =>
        obtain ⟨e, after⟩ := r
        have hshort := expression_shortens hadv rfl hread
        exact ih (c := after) _ _ _ (Nat.lt_of_lt_of_le hshort (Nat.le_of_lt_succ h))
          (Nat.lt_of_lt_of_le hshort (Nat.le_of_lt_succ h'))
    next x rest _ _ =>
      simp only [List.length_cons] at h h'
      refine ih _ _ _ ?_ ?_ <;> simp only [Cursor.next_cons] <;> omega

section Seam

variable {n start stop : Nat} {text text' : List Char} {out : List Segment}

theorem continued_end (hstart : text = [] → start = n) (hstop : text' = [] → stop = 0)
    (hout : StartsBare out) :
    continued n (textSegment start n text ++ out).reverse
        (.ok (textSegment 0 stop text' ++ []).reverse) =
      .ok (textSegment start (stop + n) (text' ++ text) ++ out).reverse := by
  have hnone : StartsBare [] := by simp [StartsBare]
  have hfuse := fuse_text hstart hstop hout hnone
  rw [List.append_nil, List.append_nil] at hfuse
  rw [List.append_nil, textSegment_reverse, continued, hfuse]

theorem continued_expr (hstart : text = [] → start = n) (hstop : text' = [] → stop = 0)
    (hout : StartsBare out) (e : Expr) (x : Except ParseError (List Segment)) :
    continued n (textSegment start n text ++ out).reverse
        (x.map ((Segment.expr e :: textSegment 0 stop text' ++ []).reverse ++ ·)) =
      (shiftSegments n x).map ((Segment.expr (e.shifted n) ::
        textSegment start (stop + n) (text' ++ text) ++ out).reverse ++ ·) := by
  cases x with
  | error e => rfl
  | ok segs =>
    have hbare : StartsBare (.expr (e.shifted n) :: segs.map (Segment.shifted n)) := by
      simp [StartsBare]
    have hfuse := fuse_text hstart hstop hout hbare
    simp only [shiftSegments, Except.map, continued, List.append_nil, List.reverse_cons,
      List.map_append, List.map_cons, textSegment_reverse, Segment.shifted, List.append_assoc,
      List.cons_append, List.nil_append, hfuse]

/-- The second text is read behind the first as it is by itself. The text that is pending at the
seam goes on. -/
theorem segmentsOnto_behind (hchain : Shifts n (Chain.shifted n) chain) (bound : Nat) {c : Cursor}
    (hstart : text = [] → start = n) (hout : StartsBare out) (hpos : text' = [] → c.pos = 0) :
    segmentsOnto chain bound start (text' ++ text) out (c.shifted n) =
      continued n (textSegment start n text ++ out).reverse
        (segmentsOnto chain bound 0 text' [] c) := by
  induction bound generalizing text' c with
  | zero => exact (continued_end hstart hpos hout).symm
  | succ bound ih =>
    unfold segmentsOnto
    simp only [Cursor.shifted_rest, Cursor.shifted_pos, Cursor.advance_shifted,
      Cursor.next_shifted, expression_shifts hchain]
    split
    next => exact (continued_end hstart hpos hout).symm
    next =>
      have hpending : '$' :: text' = [] → (c.advance 2).pos = 0 := by simp
      exact ih hpending
    next =>
      cases expression chain c.pos (c.advance 2) with
      | error e => rfl
      | ok r =>
        obtain ⟨e, after⟩ := r
        show segmentsOnto chain bound (after.pos + n) [] (.expr (e.shifted n) ::
            textSegment start (c.pos + n) (text' ++ text) ++ out) (after.shifted n) =
          continued n (textSegment start n text ++ out).reverse
            (segmentsOnto chain bound after.pos [] (.expr e :: textSegment 0 c.pos text' ++ [])
              after)
        have hrest := segmentsOnto_shifts hchain bound after.pos [] [] after
        rw [List.map_nil] at hrest
        rw [segmentsOnto_out, hrest, segmentsOnto_out bound after.pos []
          (.expr e :: textSegment 0 c.pos text' ++ []), continued_expr hstart hpos hout]
    next x _ _ _ _ =>
      have hpending : x :: text' = [] → c.next.pos = 0 := by simp
      exact ih hpending

theorem segmentsOnto_seam (hchain : Shifts n (Chain.shifted n) chain) (hadv : Advances chain)
    (more : List Char) {bound : Nat} (hbound : more.length < bound)
    (hstart : text = [] → start = n) (hout : StartsBare out) :
    segmentsOnto chain bound start text out ⟨n, more⟩ =
      continued n (textSegment start n text ++ out).reverse
        (segmentsOnto chain (more.length + 1) 0 [] [] ⟨0, more⟩) := by
  have hbehind : segmentsOnto chain bound start ([] ++ text) out (Cursor.shifted n ⟨0, more⟩) =
      continued n (textSegment start n text ++ out).reverse
        (segmentsOnto chain bound 0 [] [] ⟨0, more⟩) :=
    segmentsOnto_behind hchain bound hstart hout fun _ => rfl
  rw [Cursor.shifted, Nat.zero_add, List.nil_append,
    segmentsOnto_bound hadv 0 [] [] hbound (Nat.lt_succ_self _)] at hbehind
  exact hbehind

end Seam

theorem segmentsOnto_expr {pos : Nat} {rest : List Char} {e : Expr} {after : Cursor}
    (h : expression chain pos (Cursor.advance ⟨pos, '$' :: '{' :: rest⟩ 2) = .ok (e, after))
    (bound start : Nat) (text : List Char) (out : List Segment) :
    segmentsOnto chain (bound + 1) start text out ⟨pos, '$' :: '{' :: rest⟩ =
      segmentsOnto chain bound after.pos [] (.expr e :: textSegment start pos text ++ out)
        after := by
  rw [segmentsOnto]
  exact congrArg (· >>= _) h

theorem expression_extended (hlocal : Local chain) (hadv : Advances chain) (more : List Char)
    {c after : Cursor} {start : Nat} {e : Expr} (h : expression chain start c = .ok (e, after)) :
    expression chain start (c.extended more) = .ok (e, after.extended more) := by
  have hends : ∀ {b : Cursor}, after.rest <:+ b.rest →
      b.followed (.extending after.rest more) = b.extended more := by
    rintro ⟨pos, rest⟩ ⟨run, hrun⟩
    obtain rfl : run ++ after.rest = rest := hrun
    rw [Cursor.extended, List.append_assoc]
    exact Cursor.followed_mk (.extending after.rest more) pos run
  have hclosed : after.ClosedBy '}' (.extending after.rest more) := List.suffix_rfl
  have hread := expression_followed _ hclosed hlocal hadv h
  rwa [hends (expression_advances hadv start h).suffix, hends List.suffix_rfl] at hread

/-- A text that does not end with a dollar sign is read in the same way when more follows, and what
follows is read as it would be by itself. -/
theorem segmentsOnto_extended (hshifts : ∀ n, Shifts n (Chain.shifted n) chain)
    (hlocal : Local chain) (hadv : Advances chain) (more : List Char) {bound bound' start : Nat}
    {text : List Char} {out : List Segment} {c : Cursor} {segs : List Segment}
    (hlast : c.rest.getLast? ≠ some '$') (hstart : text = [] → start = c.pos)
    (hout : StartsBare out) (hbound : c.rest.length < bound)
    (hbound' : (c.rest ++ more).length < bound')
    (h : segmentsOnto chain bound start text out c = .ok segs) :
    segmentsOnto chain bound' start text out (c.extended more) =
      continued (c.pos + Text.byteLength c.rest) segs
        (segmentsOnto chain (more.length + 1) 0 [] [] ⟨0, more⟩) := by
  induction bound generalizing bound' start text out c with
  | zero => exact absurd hbound (Nat.not_lt_zero _)
  | succ bound ih =>
    obtain ⟨bound', rfl⟩ := Nat.exists_eq_succ_of_ne_zero (Nat.ne_zero_of_lt hbound')
    -- What is left after a round ends where the text ends, and not with a dollar sign either.
    have hround : ∀ {after : Cursor} {start : Nat} {text : List Char} {out : List Segment},
        c.Reaches after → after.rest.length < c.rest.length → (text = [] → start = after.pos) →
        StartsBare out → segmentsOnto chain bound start text out after = .ok segs →
        segmentsOnto chain bound' start text out (after.extended more) =
          continued (c.pos + Text.byteLength c.rest) segs
            (segmentsOnto chain (more.length + 1) 0 [] [] ⟨0, more⟩) := by
      intro after start text out hreach hshort hstart hout h
      rw [List.length_append] at hbound'
      rw [← hreach.stop_eq]
      refine ih (hreach.getLast?_ne hlast) hstart hout ?_ ?_ h
      · omega
      · rw [List.length_append]
        omega
    obtain ⟨pos, chars⟩ := c
    unfold segmentsOnto at h
    dsimp only at h
    split at h
    next =>
      cases h
      exact segmentsOnto_seam (hshifts pos) hadv more hbound' hstart hout
    next rest =>
      have hshort : rest.length < ('$' :: '$' :: rest).length := by
        simp only [List.length_cons]
        omega
      exact hround (Cursor.advance_reaches _ 2) hshort (by simp) hout h
    next rest =>
      obtain ⟨⟨e, after⟩, hread, h⟩ := bind_eq_ok.mp h
      have hreach := (Cursor.advance_reaches _ 2).trans (expression_advances hadv pos hread)
      have hshort : after.rest.length < ('$' :: '{' :: rest).length :=
        expression_shortens hadv rfl hread
      refine (segmentsOnto_expr (expression_extended hlocal hadv more hread) bound' start text
        out).trans ?_
      exact hround hreach hshort (fun _ => rfl) (by simp [StartsBare]) h
    next x rest hpair hopen =>
      rw [Cursor.extended, List.cons_append, segmentsOnto_char]
      · exact hround (Cursor.next_reaches _) (by simp) (by simp) hout h
      · rintro rfl y hy
        -- The dollar sign is not the last character, so the text itself shows what follows it.
        cases rest with
        | nil => exact absurd rfl hlast
        | cons z rest =>
          cases hy
          exact ⟨fun hy => hpair rest rfl (by rw [hy]), fun hy => hopen rest rfl (by rw [hy])⟩

end Parser

theorem parse_append_segments {s : String} {t : Template} (h : parse s = .ok t)
    (hlast : s.toList.getLast? ≠ some '$') (s' : String) :
    (parse (s ++ s')).map (·.segments) =
      continued (Text.byteLength s.toList) t.segments ((parse s').map (·.segments)) := by
  have hsegs := congrArg (Except.map (·.segments)) h
  rw [parse_segments, ← String.length_toList] at hsegs
  have hextended := Parser.segmentsOnto_extended
    (fun n => Parser.chain_shifts n maxNesting maxNesting) (Parser.chain_local _ _)
    (Parser.chain_advances _ _) s'.toList (c := .ofString s) hlast (fun _ => rfl)
    (by simp [StartsBare]) (Nat.lt_succ_self _) (Nat.lt_succ_self _) hsegs
  rw [parse_segments, parse_segments, ← String.length_toList, ← String.length_toList,
    Cursor.ofString, String.toList_append]
  rw [Cursor.ofString, Nat.zero_add] at hextended
  exact hextended

/-- A template that can be read and does not end with a dollar sign is read with another one behind
it as the two are read by themselves. -/
theorem parse_append {s : String} {t : Template} (h : parse s = .ok t)
    (hlast : s.toList.getLast? ≠ some '$') (s' : String) :
    parse (s ++ s') =
      match parse s' with
      | .ok t' => .ok ⟨fuse t.segments
        (t'.segments.map (Segment.shifted (Text.byteLength s.toList)))⟩
      | .error e => .error (e.shifted (Text.byteLength s.toList)) := by
  have happend := parse_append_segments h hlast s'
  cases hmore : parse s' with
  | ok t' =>
    rw [hmore] at happend
    obtain ⟨both, hboth, hsegs⟩ := map_eq_ok.mp happend
    rw [hboth]
    exact congrArg (Except.ok ∘ Template.mk) hsegs
  | error e =>
    rw [hmore] at happend
    exact eq_error_of_map happend

end PathTemplate.Template
