import PathTemplate.Proofs.Template.Printer

namespace PathTemplate.Template

open Cursor

theorem Cursor.literal_isWritten {c after : Cursor} {l : Literal}
    (h : c.literal = .ok (l, after)) : l.kind.IsWritten ∧ ∀ name, l.kind ≠ .param name := by
  rcases literal_eq_ok.mp h with ⟨-, s, -, rfl⟩ | ⟨-, n, hn, rfl⟩
  · exact ⟨trivial, by simp⟩
  · exact ⟨number_isNumeral hn, by simp⟩

theorem Cursor.ident_isName {c after : Cursor} {what : String} {id : Ident}
    (h : c.ident what = .ok (id, after)) : c.ident? = some (id, after) := by
  unfold ident at h
  split at h
  next hid =>
    cases h
    exact hid
  next => cases h

theorem Cursor.defaultLiteral_isWritten {c after : Cursor} {l : Literal}
    (h : c.defaultLiteral = .ok (l, after)) : l.kind.IsWritten := by
  rcases defaultLiteral_eq_ok.mp h with ⟨name, -, id, hid, rfl⟩ | ⟨-, b, -, rfl⟩ | ⟨-, -, -, hl⟩
  · exact (ident?_eq_some (ident_isName hid)).1
  · trivial
  · exact (literal_isWritten hl).1

namespace Parser

variable {chain : Reader Chain} {P : Chain → Prop} {c after : Cursor}

/-- A chain that starts with a bare name has all the name characters that come first in it, and ends
there only if no path goes on. -/
def StartsAt (c : Cursor) (t : Chain) : Prop :=
  ∀ id, t.head = .name id → id.name.toList = c.rest.takeWhile isNameChar ∧
    (t.steps = [] → Stops continuesPath (c.rest.dropWhile isNameChar))

def Gives (P : Chain → Prop) (chain : Reader Chain) : Prop :=
  ∀ c t after, chain c = .ok (t, after) → P t ∧ StartsAt c t

theorem alternativesOnto_fits (hchain : Gives P chain) (bound : Nat) {out cs : List Chain}
    (h : alternativesOnto chain bound out c = .ok (cs, after)) (hout : ∀ t ∈ out, P t)
    (hne : out ≠ []) : (∀ t ∈ cs, P t) ∧ cs ≠ [] := by
  induction bound generalizing out c with
  | zero =>
    cases h
    exact ⟨by simpa using hout, by simpa using hne⟩
  | succ bound ih =>
    rcases alternativesOnto_eq_ok.mp h with ⟨bar, -, t, c', ht, h⟩ | ⟨-, rfl, -⟩
    · exact ih h (List.forall_mem_cons.mpr ⟨(hchain _ _ _ ht).1, hout⟩) (by simp)
    · exact ⟨by simpa using hout, by simpa using hne⟩

theorem expr_fits (hchain : Gives P chain) {e : Expr} (h : expr chain c = .ok (e, after)) :
    e.Fits P := by
  obtain ⟨first, c₁, hfirst, cs, c₂, hcs, h⟩ := expr_eq_ok.mp h
  obtain ⟨hP, hne⟩ := alternativesOnto_fits hchain _ hcs
    (by simpa using (hchain _ _ _ hfirst).1) (by simp)
  rcases h with ⟨mark, -, l, hl, rfl⟩ | ⟨-, rfl, -⟩
  · refine ⟨hne, hP, ?_⟩
    rintro l' ⟨⟩
    exact defaultLiteral_isWritten hl
  · refine ⟨hne, hP, ?_⟩
    rintro l' ⟨⟩

theorem arg_fits (hchain : Gives P chain) {a : Arg} (h : arg chain c = .ok (a, after)) :
    a.Fits P := by
  rcases arg_eq_ok.mp h with ⟨-, l, hl, rfl⟩ | ⟨-, b, -, rfl⟩ | ⟨-, hbool, t, ht, rfl⟩
  · obtain ⟨hwritten, hparam⟩ := literal_isWritten hl
    obtain ⟨kind, span⟩ := l
    cases kind with
    | param name => exact absurd rfl (hparam name)
    | _ => exact hwritten
  · trivial
  · obtain ⟨hP, hstart⟩ := hchain _ _ _ ht
    refine ⟨hP, ?_⟩
    -- The word of a truth value is read as a path only if the path goes on.
    intro id b hhead hname hsteps
    obtain ⟨hrun, hstop⟩ := hstart id hhead
    have hgoes : (c.rest.dropWhile isNameChar).head?.any continuesPath = false := by
      cases hx : (c.rest.dropWhile isNameChar).head? with
      | none => rfl
      | some x => exact hstop hsteps x hx
    have hread := bool?_of_run (hrun.symm.trans hname)
    rw [hgoes, hbool] at hread
    cases hread

theorem argsOnto_fits (hchain : Gives P chain) (bound : Nat) {out as : List Arg}
    (h : argsOnto chain bound out c = .ok (as, after)) (hout : ∀ a ∈ out, a.Fits P) :
    ∀ a ∈ as, a.Fits P := by
  induction bound generalizing out c with
  | zero => cases h
  | succ bound ih =>
    obtain ⟨a, c', ha, h⟩ := argsOnto_eq_ok.mp h
    have hmore := List.forall_mem_cons.mpr ⟨arg_fits hchain ha, hout⟩
    rcases h with ⟨comma, -, h⟩ | ⟨-, -, rfl⟩
    · exact ih h hmore
    · exact fun a' ha' => hmore a' (List.mem_reverse.mp ha')

theorem args_fits (hchain : Gives P chain) {as : List Arg} (h : args chain c = .ok (as, after)) :
    ∀ a ∈ as, a.Fits P := by
  rcases args_eq_ok.mp h with ⟨-, rfl⟩ | ⟨-, h⟩
  · simp
  · exact argsOnto_fits hchain _ h (by simp)

theorem joinItem_fits (hchain : Gives P chain) {i : JoinItem}
    (h : joinItem chain c = .ok (i, after)) : i.Fits P := by
  rcases joinItem_eq_ok.mp h with ⟨-, s, -, rfl⟩ | ⟨-, -, e, he, rfl⟩
  · trivial
  · exact expr_fits hchain he

theorem joinItemsOnto_fits (hchain : Gives P chain) (bound : Nat) {out items : List JoinItem}
    (h : joinItemsOnto chain bound out c = .ok (items, after)) (hout : ∀ i ∈ out, i.Fits P) :
    items ≠ [] ∧ ∀ i ∈ items, i.Fits P := by
  induction bound generalizing out c with
  | zero => cases h
  | succ bound ih =>
    obtain ⟨i, c', hi, h⟩ := joinItemsOnto_eq_ok.mp h
    have hmore := List.forall_mem_cons.mpr ⟨joinItem_fits hchain hi, hout⟩
    rcases h with ⟨comma, -, h⟩ | ⟨-, -, rfl⟩
    · exact ih h hmore
    · exact ⟨by simp, fun i' hi' => hmore i' (List.mem_reverse.mp hi')⟩

theorem head_fits (hchain : Gives P chain) {t : Head} (h : head chain c = .ok (t, after)) :
    t.Fits P ∧ ∀ id, t = .name id → id.name.toList = c.rest.takeWhile isNameChar ∧
      after.rest = c.rest.dropWhile isNameChar ∧ after.eat? '(' = none := by
  rcases head_eq_ok.mp h with ⟨-, k, hk, rfl⟩ | ⟨-, id, c', hid, h⟩
  · exact ⟨key_name hk, by simp⟩
  · obtain ⟨hname, hrun, hrest⟩ := ident?_eq_some (ident_isName hid)
    rcases h with ⟨inside, -, as, has, rfl⟩ | ⟨hnone, rfl, rfl⟩
    · exact ⟨⟨hname, args_fits hchain has⟩, by simp⟩
    · refine ⟨hname, ?_⟩
      rintro id' ⟨⟩
      exact ⟨hrun, hrest, hnone⟩

theorem dotStep_fits (hchain : Gives P chain) {start : Nat} {s : Step}
    (h : dotStep chain start c = .ok (s, after)) : s.Fits P := by
  rcases dotStep_eq_ok.mp h with ⟨-, items, hitems, rfl⟩ | ⟨-, id, c', hid, h⟩
  · exact joinItemsOnto_fits hchain _ hitems (by simp)
  · have hname := (ident?_eq_some (ident_isName hid)).1
    rcases h with ⟨inside, -, -, rfl⟩ | ⟨-, rfl, -⟩
    · exact hname
    · exact hname

theorem step?_fits (hchain : Gives P chain) {s : Step}
    (h : step? chain c = some (.ok (s, after))) : s.Fits P := by
  rcases step?_eq_ok.mp h with ⟨-, h⟩ | ⟨-, k, hk, rfl⟩
  · exact dotStep_fits hchain h
  · exact key_name hk

theorem stepsOnto_fits (hchain : Gives P chain) (bound : Nat) {out steps : List Step}
    (h : stepsOnto chain bound out c = .ok (steps, after)) (hout : ∀ s ∈ out, s.Fits P)
    (hjoin : ∀ s ∈ out.tail, s.isJoin = false) :
    (∀ s ∈ steps, s.Fits P) ∧ ∀ s ∈ steps.dropLast, s.isJoin = false := by
  have hend : ∀ {out : List Step}, (∀ s ∈ out, s.Fits P) → (∀ s ∈ out.tail, s.isJoin = false) →
      (∀ s ∈ out.reverse, s.Fits P) ∧ ∀ s ∈ out.reverse.dropLast, s.isJoin = false := by
    intro out hout hjoin
    refine ⟨fun s hs => hout s (List.mem_reverse.mp hs), ?_⟩
    intro s hs
    rw [List.dropLast_reverse, List.mem_reverse] at hs
    exact hjoin s hs
  induction bound generalizing out c with
  | zero =>
    cases h
    exact hend hout hjoin
  | succ bound ih =>
    rcases stepsOnto_eq_ok.mp h with ⟨-, rfl, -⟩ | ⟨s, c', hstep, hnot, h⟩
    · exact hend hout hjoin
    · refine ih h (List.forall_mem_cons.mpr ⟨step?_fits hchain hstep, hout⟩) ?_
      cases out with
      | nil => simp
      | cons first rest => exact List.forall_mem_cons.mpr ⟨by simpa using hnot, hjoin⟩

theorem stepsOnto_extends (bound : Nat) {out steps : List Step}
    (h : stepsOnto chain bound out c = .ok (steps, after)) :
    ∃ more, steps = out.reverse ++ more := by
  induction bound generalizing out c with
  | zero =>
    cases h
    exact ⟨[], by simp⟩
  | succ bound ih =>
    rcases stepsOnto_eq_ok.mp h with ⟨-, rfl, -⟩ | ⟨s, c', -, -, h⟩
    · exact ⟨[], by simp⟩
    · obtain ⟨more, rfl⟩ := ih h
      exact ⟨s :: more, by simp⟩

/-- A chain without steps ends before a point or a bracket only if it cannot go on there. -/
theorem step?_of_no_steps {bound : Nat} (h : stepsOnto chain (bound + 1) [] c = .ok ([], after)) :
    step? chain c = none := by
  rcases stepsOnto_eq_ok.mp h with ⟨hnone, -, -⟩ | ⟨s, c', -, -, h⟩
  · exact hnone
  · obtain ⟨more, hmore⟩ := stepsOnto_extends bound h
    simp at hmore

theorem arithmetic_fits {joined : Bool} {a : Option Arithmetic}
    (h : arithmetic joined c = .ok (a, after)) :
    (joined → a = none) ∧ ∀ a' ∈ a, IsNumeral a'.operand := by
  rcases arithmetic_eq_ok.mp h with ⟨-, rfl, -⟩ | ⟨op, -, n, hn, rfl, rfl⟩
  · simp
  · refine ⟨by simp, ?_⟩
    rintro a' ⟨⟩
    exact number_isNumeral hn

theorem castTarget?_text {name : String} {t : Ty} (h : castTarget? name = some t) :
    castTarget? t.text = some t := by
  unfold castTarget? at h
  split at h <;> cases h <;> rfl

theorem conversion_fits {joined : Bool} {v : Option Conversion}
    (h : conversion joined c = .ok (v, after)) :
    (joined → v = none) ∧ ∀ v' ∈ v, castTarget? v'.target.text = some v'.target := by
  rcases conversion_eq_ok.mp h with ⟨-, rfl, -⟩ | ⟨word, -, id, -, ty, hty, rfl, rfl⟩
  · simp
  · refine ⟨by simp, ?_⟩
    rintro v' ⟨⟩
    exact castTarget?_text hty

theorem chainLevel_gives (hchain : Gives P chain) :
    Gives (Chain.FitsOver P) (chainLevel chain) := by
  intro c t after h
  obtain ⟨hd, c₁, hhead, steps, c₂, hsteps, a, c₃, ha, v, hv, rfl⟩ := chainLevel_eq_ok.mp h
  obtain ⟨hfits, hstart⟩ := head_fits hchain hhead
  obtain ⟨hall, hlast⟩ := stepsOnto_fits hchain _ hsteps (by simp) (by simp)
  obtain ⟨hjoinA, hnumeral⟩ := arithmetic_fits ha
  obtain ⟨hjoinV, htarget⟩ := conversion_fits hv
  refine ⟨⟨hfits, hall, hlast, fun hjoin => ⟨hjoinA hjoin, hjoinV hjoin⟩, hnumeral, htarget⟩, ?_⟩
  intro id hid
  obtain ⟨hrun, hrest, hparen⟩ := hstart id hid
  refine ⟨hrun, ?_⟩
  rintro rfl
  -- No step was there, so neither a point nor a bracket comes next.
  obtain ⟨hdot, hbracket⟩ := step?_eq_none.mp (step?_of_no_steps hsteps)
  have hopen : c₁.peek ≠ some '(' := by simpa [eat?] using hparen
  rw [← hrest]
  intro x (hx : c₁.peek = some x)
  simp only [hx, ne_eq, Option.some.injEq] at hdot hbracket hopen
  simp [continuesPath, hdot, hbracket, hopen]

theorem chain_gives (limit levels : Nat) :
    Gives (Chain.Within levels) (Parser.chain limit levels) := by
  induction levels with
  | zero =>
    intro c t after h
    cases h
  | succ levels ih => exact chainLevel_gives ih

theorem expression_fits (hchain : Gives P chain) {start : Nat} {e : Expr}
    (h : expression chain start c = .ok (e, after)) : e.Fits P := by
  obtain ⟨-, -, c', he, -⟩ := expression_eq_ok.mp h
  exact expr_fits hchain he

theorem textSegment_fits (start stop : Nat) (text : List Char) {more : List Segment}
    (hmore : SegmentsFit more) (hnot : ∀ s span, more.head? ≠ some (.text s span)) :
    SegmentsFit (textSegment start stop text ++ more) := by
  unfold textSegment
  split
  · exact hmore
  next hne =>
    refine ⟨?_, hnot, hmore⟩
    intro hempty
    have := congrArg String.toList hempty
    simp_all

theorem textSegment_reverse (start stop : Nat) (text : List Char) :
    (textSegment start stop text).reverse = textSegment start stop text := by
  unfold textSegment
  split <;> rfl

theorem segmentsOnto_char {x : Char} {cs : List Char}
    (hx : x = '$' → ∀ y ∈ cs.head?, y ≠ '$' ∧ y ≠ '{') (bound start : Nat) (text : List Char)
    (out : List Segment) (pos : Nat) :
    segmentsOnto chain (bound + 1) start text out ⟨pos, x :: cs⟩ =
      segmentsOnto chain bound start (x :: text) out ⟨pos + x.utf8Size, cs⟩ := by
  rw [segmentsOnto]
  split
  next heq => cases heq
  next heq =>
    cases heq
    exact absurd rfl (hx rfl _ rfl).1
  next heq =>
    cases heq
    exact absurd rfl (hx rfl _ rfl).2
  next heq =>
    cases heq
    rfl

theorem segment_cases (rest : List Char) :
    rest = [] ∨ (∃ x cs, rest = x :: cs ∧ (x = '$' → ∀ y ∈ cs.head?, y ≠ '$' ∧ y ≠ '{')) ∨
      (∃ cs, rest = '$' :: '$' :: cs) ∨ ∃ cs, rest = '$' :: '{' :: cs := by
  rcases rest with _ | ⟨x, cs⟩
  · exact .inl rfl
  · by_cases hpair : x = '$' → ∀ y ∈ cs.head?, y ≠ '$' ∧ y ≠ '{'
    · exact .inr (.inl ⟨x, cs, rfl, hpair⟩)
    · obtain rfl : x = '$' := (Classical.not_imp.mp hpair).1
      rcases cs with _ | ⟨y, cs⟩
      · simp at hpair
      · by_cases hy : y = '$'
        · exact .inr (.inr (.inl ⟨cs, by rw [hy]⟩))
        · have hbrace : y = '{' := by
            simpa [hy] using hpair
          exact .inr (.inr (.inr ⟨cs, by rw [hbrace]⟩))

theorem segmentsOnto_fit (hchain : Gives (Chain.Within maxNesting) chain) (bound : Nat)
    {start : Nat} {text : List Char} {out segs : List Segment}
    (h : segmentsOnto chain bound start text out c = .ok segs) :
    ∃ more, segs = out.reverse ++ more ∧ SegmentsFit more := by
  have hend : ∀ {start : Nat} {text : List Char} {out segs : List Segment} {stop : Nat},
      Except.ok (textSegment start stop text ++ out).reverse =
        (.ok segs : Except ParseError (List Segment)) →
      ∃ more, segs = out.reverse ++ more ∧ SegmentsFit more := by
    intro start text out segs stop h
    cases h
    refine ⟨textSegment start stop text, ?_, ?_⟩
    · rw [List.reverse_append, textSegment_reverse]
    · have hnil : SegmentsFit [] := trivial
      simpa using textSegment_fits start stop text hnil (by simp)
  induction bound generalizing start text out c with
  | zero => exact hend h
  | succ bound ih =>
    unfold segmentsOnto at h
    split at h
    · exact hend h
    · exact ih h
    · obtain ⟨⟨e, c'⟩, he, h⟩ := bind_eq_ok.mp h
      obtain ⟨more, rfl, hmore⟩ := ih h
      refine ⟨textSegment start c.pos text ++ .expr e :: more, ?_, ?_⟩
      · simp [textSegment_reverse]
      · exact textSegment_fits start c.pos text ⟨expression_fits hchain he, hmore⟩ (by simp)
    · exact ih h

end Parser

theorem parse_segments (s : String) : (parse s).map (·.segments) =
    Parser.segmentsOnto (Parser.chain maxNesting maxNesting) (s.length + 1) 0 [] []
      (.ofString s) := by
  unfold parse parseWithin
  dsimp only
  cases Parser.segmentsOnto (Parser.chain maxNesting maxNesting) (s.length + 1) 0 [] []
    (.ofString s) <;> rfl

theorem parse_eq_ok {s : String} {t : Template} : parse s = .ok t ↔
    Parser.segmentsOnto (Parser.chain maxNesting maxNesting) (s.length + 1) 0 [] [] (.ofString s) =
      .ok t.segments := by
  rw [← parse_segments, map_eq_ok]
  constructor
  · exact fun h => ⟨t, h, rfl⟩
  · rintro ⟨t', h, hsegs⟩
    rw [h]
    exact congrArg (Except.ok ∘ Template.mk) hsegs

theorem parse_fits {s : String} {t : Template} (h : parse s = .ok t) : SegmentsFit t.segments := by
  obtain ⟨more, hsegs, hmore⟩ :=
    Parser.segmentsOnto_fit (Parser.chain_gives maxNesting maxNesting) _ (parse_eq_ok.mp h)
  rw [hsegs]
  exact hmore

end PathTemplate.Template
