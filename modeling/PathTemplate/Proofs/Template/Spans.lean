import PathTemplate.Proofs.Template.Advancing

/-!
Where the parts of a template stand. Every part lies inside the one that it is a part of and cuts no
character, names stand where their spans say, and the segments are the template piece by piece. An
error, too, is about a place in the template.
-/

namespace PathTemplate

/-- A span of a text that lies inside another one and does not cut a character. -/
structure Span.Within (src : String) (s outer : Span) : Prop where
  lower : outer.start ≤ s.start
  ordered : s.start ≤ s.stop
  upper : s.stop ≤ outer.stop
  start : Text.IsBoundary src.toList s.start
  stop : Text.IsBoundary src.toList s.stop

def Span.whole (src : String) : Span := ⟨0, Text.byteLength src.toList⟩

theorem Span.Within.mono {src : String} {s : Span} {lo hi lo' hi' : Nat}
    (h : s.Within src ⟨lo, hi⟩) (hlower : lo' ≤ lo) (hupper : hi ≤ hi') : s.Within src ⟨lo', hi'⟩ :=
  { h with lower := hlower.trans h.lower, upper := h.upper.trans hupper }

theorem Span.Within.whole {src : String} {outer s : Span} (h : s.Within src outer) :
    s.Within src (.whole src) :=
  { h with lower := Nat.zero_le _, upper := h.stop.le }

structure Ident.Placed (src : String) (outer : Span) (id : Ident) : Prop where
  within : id.span.Within src outer
  slice : id.span.slice src = id.name

mutual

inductive Expr.Placed (src : String) : Span → Expr → Prop
  | mk {outer span : Span} {cs : List Chain} {d : Option Literal} (within : span.Within src outer)
      (alternatives : ∀ c ∈ cs, Chain.Placed src span c)
      (default : ∀ l ∈ d, l.span.Within src span) : Expr.Placed src outer (.mk cs d span)

inductive Chain.Placed (src : String) : Span → Chain → Prop
  | mk {outer span : Span} {h : Head} {ss : List Step} {a : Option Arithmetic}
      {v : Option Conversion} (within : span.Within src outer) (head : Head.Placed src span h)
      (steps : ∀ s ∈ ss, Step.Placed src span s) (arithmetic : ∀ x ∈ a, x.span.Within src span)
      (conversion : ∀ x ∈ v, x.span.Within src span) : Chain.Placed src outer (.mk h ss a v span)

inductive Head.Placed (src : String) : Span → Head → Prop
  | name {outer : Span} {id : Ident} (name : id.Placed src outer) :
      Head.Placed src outer (.name id)
  | call {outer : Span} {id : Ident} {as : List Arg} {stop : Nat}
      (within : (Span.mk id.span.start stop).Within src outer)
      (slice : ∃ inside, (Span.mk id.span.start stop).slice src = id.name ++ "(" ++ inside ++ ")")
      (name : id.Placed src ⟨id.span.start, stop⟩)
      (args : ∀ a ∈ as, Arg.Placed src ⟨id.span.stop + 1, stop - 1⟩ a) :
      Head.Placed src outer (.call id as)
  | key {outer : Span} {id : Ident} (within : id.span.Within src outer) :
      Head.Placed src outer (.key id)

inductive Step.Placed (src : String) : Span → Step → Prop
  | member {outer : Span} {id : Ident} (name : id.Placed src outer) :
      Step.Placed src outer (.member id)
  | call {outer : Span} {id : Ident} (name : id.Placed src outer) :
      Step.Placed src outer (.call id)
  | key {outer : Span} {id : Ident} (within : id.span.Within src outer) :
      Step.Placed src outer (.key id)
  | join {outer span : Span} {is : List JoinItem} (within : span.Within src outer)
      (items : ∀ i ∈ is, JoinItem.Placed src span i) : Step.Placed src outer (.join is span)

inductive JoinItem.Placed (src : String) : Span → JoinItem → Prop
  | text {outer span : Span} {s : String} (within : span.Within src outer) :
      JoinItem.Placed src outer (.text s span)
  | expr {outer : Span} {e : Expr} (placed : Expr.Placed src outer e) :
      JoinItem.Placed src outer (.expr e)

inductive Arg.Placed (src : String) : Span → Arg → Prop
  | literal {outer : Span} {l : Literal} (within : l.span.Within src outer) :
      Arg.Placed src outer (.literal l)
  | path {outer : Span} {c : Chain} (placed : Chain.Placed src outer c) :
      Arg.Placed src outer (.path c)

end

section Mono

variable {src : String} {lo hi lo' hi' : Nat} (hlower : lo' ≤ lo) (hupper : hi ≤ hi')

include hlower hupper

theorem Ident.Placed.mono {id : Ident} (h : id.Placed src ⟨lo, hi⟩) : id.Placed src ⟨lo', hi'⟩ :=
  ⟨h.within.mono hlower hupper, h.slice⟩

theorem Expr.Placed.mono {e : Expr} (h : e.Placed src ⟨lo, hi⟩) : e.Placed src ⟨lo', hi'⟩ := by
  cases h with
  | mk within alternatives default => exact .mk (within.mono hlower hupper) alternatives default

theorem Chain.Placed.mono {c : Chain} (h : c.Placed src ⟨lo, hi⟩) : c.Placed src ⟨lo', hi'⟩ := by
  cases h with
  | mk within head steps arithmetic conversion =>
    exact .mk (within.mono hlower hupper) head steps arithmetic conversion

theorem Head.Placed.mono {h : Head} (hp : h.Placed src ⟨lo, hi⟩) : h.Placed src ⟨lo', hi'⟩ := by
  cases hp with
  | name name => exact .name (name.mono hlower hupper)
  | call within slice name args => exact .call (within.mono hlower hupper) slice name args
  | key within => exact .key (within.mono hlower hupper)

theorem Step.Placed.mono {s : Step} (h : s.Placed src ⟨lo, hi⟩) : s.Placed src ⟨lo', hi'⟩ := by
  cases h with
  | member name => exact .member (name.mono hlower hupper)
  | call name => exact .call (name.mono hlower hupper)
  | key within => exact .key (within.mono hlower hupper)
  | join within items => exact .join (within.mono hlower hupper) items

theorem JoinItem.Placed.mono {i : JoinItem} (h : i.Placed src ⟨lo, hi⟩) :
    i.Placed src ⟨lo', hi'⟩ := by
  cases h with
  | text within => exact .text (within.mono hlower hupper)
  | expr placed => exact .expr (placed.mono hlower hupper)

theorem Arg.Placed.mono {a : Arg} (h : a.Placed src ⟨lo, hi⟩) : a.Placed src ⟨lo', hi'⟩ := by
  cases h with
  | literal within => exact .literal (within.mono hlower hupper)
  | path placed => exact .path (placed.mono hlower hupper)

end Mono

namespace Template

/-- A place in a text whose offsets are small enough for spans. -/
structure Cursor.In (src : String) (c : Cursor) : Prop where
  short : Text.byteLength src.toList ≤ Span.limit
  split : ∃ before, src.toList = before ++ c.rest ∧ c.pos = Text.byteLength before

namespace Cursor

variable {src : String} {c c' : Cursor}

theorem In.reaches (h : c.In src) (hr : c.Reaches c') : c'.In src := by
  obtain ⟨before, hsrc, hpos⟩ := h.split
  obtain ⟨run, hrest, hpos'⟩ := hr
  refine ⟨h.short, before ++ run, by rw [hsrc, hrest, List.append_assoc], ?_⟩
  rw [hpos', hpos, Text.byteLength_append]

theorem In.boundary (h : c.In src) : Text.IsBoundary src.toList c.pos := by
  obtain ⟨before, hsrc, hpos⟩ := h.split
  exact ⟨before, c.rest, hsrc, hpos.symm⟩

theorem In.spanFrom (h : c.In src) (hr : c.Reaches c') : c'.spanFrom c.pos = ⟨c.pos, c'.pos⟩ := by
  have hstop := (h.reaches hr).boundary.le.trans h.short
  have hstart := hr.pos_le.trans hstop
  rw [Cursor.spanFrom, Span.ofRange, Nat.min_eq_left hstart, Nat.min_eq_left hstop]

theorem In.between (h : c.In src) (hr : c.Reaches c') :
    (Span.mk c.pos c'.pos).Within src ⟨c.pos, c'.pos⟩ :=
  ⟨Nat.le_refl _, hr.pos_le, Nat.le_refl _, h.boundary, (h.reaches hr).boundary⟩

theorem In.within (h : c.In src) (hr : c.Reaches c') :
    (c'.spanFrom c.pos).Within src ⟨c.pos, c'.pos⟩ := by
  rw [h.spanFrom hr]
  exact h.between hr

theorem In.here (h : c.In src) : c.here.Within src (.whole src) := (h.within c.next_reaches).whole

theorem In.slice (h : c.In src) {run : List Char} (hrest : c.rest = run ++ c'.rest)
    (hpos : c'.pos = c.pos + Text.byteLength run) :
    (Span.mk c.pos c'.pos).slice src = String.ofList run := by
  obtain ⟨before, hsrc, hstart⟩ := h.split
  have hcut := Text.sliceBytes_append before run c'.rest
  rw [List.append_assoc, ← hrest, ← hsrc, ← hstart, ← hpos] at hcut
  simp only [Span.slice, hcut]

end Cursor

/-- The result fits the place behind it, and an error is about a place in the text. -/
def Lands {α : Type} (src : String) (P : α → Cursor → Prop) :
    Except ParseError (α × Cursor) → Prop
  | .ok (a, after) => P a after
  | .error e => e.span.Within src (.whole src)

def Places {α : Type} (src : String) (P : Span → α → Prop) (reader : Reader α) : Prop :=
  ∀ {c : Cursor}, c.In src → Lands src (fun a after => P ⟨c.pos, after.pos⟩ a) (reader c)

section Outcomes

variable {α β : Type} {src : String} {P : α → Cursor → Prop} {Q : β → Cursor → Prop}

theorem Lands.bind {x : Except ParseError (α × Cursor)}
    {k : α × Cursor → Except ParseError (β × Cursor)} (hx : Lands src P x)
    (hk : ∀ a after, x = .ok (a, after) → P a after → Lands src Q (k (a, after))) :
    Lands src Q (x >>= k) := by
  match x with
  | .ok (a, after) => exact hk a after rfl hx
  | .error e => exact hx

theorem Cursor.In.expected {c : Cursor} (h : c.In src) (what : String) :
    Lands src P (c.expected what) := h.here

theorem lands_fail {kind : ParseErrorKind} {span outer : Span} (h : span.Within src outer) :
    Lands src P (Cursor.fail kind span) := h.whole

end Outcomes

section Words

open Cursor

variable {src : String} {c after : Cursor}

theorem ident?_placed (hc : c.In src) {id : Ident} (h : c.ident? = some (id, after)) :
    id.Placed src ⟨c.pos, after.pos⟩ := by
  have hrun := c.takeWhile_reaches isNameChar
  unfold ident? at h
  split at h
  · cases h
    refine ⟨hc.within hrun, ?_⟩
    have hslice : (Span.mk c.pos (c.takeWhile isNameChar).2.pos).slice src =
        String.ofList (c.rest.takeWhile isNameChar) :=
      hc.slice List.takeWhile_append_dropWhile.symm rfl
    rwa [← hc.spanFrom hrun] at hslice
  · cases h

theorem ident_places (what : String) : Places src (Ident.Placed src) (ident · what) := by
  intro c hc
  show Lands _ _ (c.ident what)
  unfold ident
  split
  next h => exact ident?_placed hc h
  next => exact hc.expected what

theorem quoted_lands (hc : c.In src) : Lands src (fun _ _ => True) c.quoted := by
  have hread := quotedOnto_reaches (c.peek.getD '"') c.next.pos [] c.next.rest
  unfold quoted
  dsimp only
  split
  next => trivial
  next stop heq =>
    rw [heq] at hread
    have hend : c.next.Reaches ⟨stop, []⟩ := ⟨c.next.rest, by simp, hread⟩
    exact (hc.within (c.next_reaches.trans hend)).whole

theorem number_lands (hc : c.In src) : Lands src (fun _ _ => True) c.number := by
  rw [number_eq]
  split
  · exact hc.expected "number"
  · unfold valueBefore
    split
    · trivial
    · exact lands_fail (hc.within c.scanNumber_reaches)

theorem literal_places : Places src (fun outer l => l.span.Within src outer) literal := by
  intro c hc
  unfold literal
  split
  · refine (quoted_lands hc).bind fun s after hs _ => ?_
    exact hc.within (quoted_reaches hs)
  · refine (number_lands hc).bind fun n after hn _ => ?_
    exact hc.within (number_reaches hn)

theorem defaultLiteral_places :
    Places src (fun outer l => l.span.Within src outer) defaultLiteral := by
  intro c hc
  unfold defaultLiteral
  split
  next name hname =>
    have hdollar := eat?_reaches hname
    refine (ident_places _ (hc.reaches hdollar)).bind fun id after hid _ => ?_
    exact hc.within (hdollar.trans (ident_reaches hid))
  next =>
    split
    next hbool => exact hc.within (bool?_reaches hbool)
    next =>
      split
      · exact literal_places hc
      · exact hc.expected "default value"

theorem keyBefore_lands {start : Cursor} (hs : start.In src) (hr : start.Reaches c)
    (name : String) : Lands src (fun id after => id.span.Within src ⟨start.pos, after.pos⟩)
      (keyBefore start.pos name c) := by
  unfold keyBefore
  split
  next close hclose =>
    split
    · exact lands_fail (hs.within (hr.trans (eat?_reaches hclose)))
    · exact hs.within (hr.trans (eat?_reaches hclose))
  next =>
    split
    · exact lands_fail (hs.within hr)
    · exact (hs.reaches hr).expected "`]`"

theorem key_places : Places src (fun outer id => id.span.Within src outer) key := by
  intro c hc
  have hinner := c.next_reaches.trans c.next.skipBlanks_reaches
  unfold key
  dsimp only
  split
  · refine (quoted_lands (hc.reaches hinner)).bind fun name after hname _ => ?_
    exact keyBefore_lands hc (hinner.trans ((quoted_reaches hname).trans
      after.skipBlanks_reaches)) name
  · exact keyBefore_lands hc (hinner.trans (takeWhile_reaches _ _)) _

end Words

namespace Parser

open Cursor

variable {src : String} {chain : Reader Chain} {c after : Cursor}

section Levels

variable (hchain : Places src (Chain.Placed src) chain) (hadv : Advances chain)

include hchain hadv

theorem alternativesOnto_lands (bound start : Nat) {out : List Chain} (hc : c.In src)
    (hstart : start ≤ c.pos) (hout : ∀ t ∈ out, Chain.Placed src ⟨start, c.pos⟩ t) :
    Lands src (fun cs after => ∀ t ∈ cs, Chain.Placed src ⟨start, after.pos⟩ t)
      (alternativesOnto chain bound out c) := by
  induction bound generalizing out c with
  | zero => simpa [alternativesOnto, Lands] using hout
  | succ bound ih =>
    have hskip := c.skipBlanks_reaches
    unfold alternativesOnto
    dsimp only
    split
    next bar hbar =>
      have hnext := hskip.trans ((eat?_reaches hbar).trans bar.skipBlanks_reaches)
      refine (hchain (hc.reaches hnext)).bind fun t after ht hplaced => ?_
      have hafter := hnext.trans (hadv ht)
      have hnew : Chain.Placed src ⟨start, after.pos⟩ t :=
        hplaced.mono (hstart.trans hnext.pos_le) (Nat.le_refl _)
      have hold : ∀ u ∈ out, Chain.Placed src ⟨start, after.pos⟩ u :=
        fun u hu => (hout u hu).mono (Nat.le_refl _) hafter.pos_le
      exact ih (hc.reaches hafter) (hstart.trans hafter.pos_le)
        (List.forall_mem_cons.mpr ⟨hnew, hold⟩)
    next =>
      intro t ht
      exact (hout t (List.mem_reverse.mp ht)).mono (Nat.le_refl _) hskip.pos_le

theorem expr_places : Places src (Expr.Placed src) (expr chain) := by
  intro c hc
  unfold expr
  refine (hchain hc).bind fun first c₁ hfirst hplaced => ?_
  have h₁ := hadv hfirst
  refine (alternativesOnto_lands hchain hadv _ c.pos (hc.reaches h₁) h₁.pos_le
    (by simpa using hplaced)).bind fun cs c₂ hcs halternatives => ?_
  have h₂ := h₁.trans (alternativesOnto_advances hadv _ _ hcs)
  dsimp only
  split
  next mark hmark =>
    have h₃ := h₂.trans ((defaultMark?_reaches hmark).trans mark.skipBlanks_reaches)
    refine (defaultLiteral_places (hc.reaches h₃)).bind fun l c₄ hl hwithin => ?_
    have h₄ := defaultLiteral_reaches hl
    show Expr.Placed _ _ (.mk cs (some l) (c₄.spanFrom c.pos))
    rw [hc.spanFrom (h₃.trans h₄)]
    refine .mk (hc.between (h₃.trans h₄)) (fun t ht => ?_) ?_
    · have hmore := (defaultMark?_reaches hmark).trans (mark.skipBlanks_reaches.trans h₄)
      exact (halternatives t ht).mono (Nat.le_refl _) hmore.pos_le
    · rintro l' ⟨⟩
      exact hwithin.mono h₃.pos_le (Nat.le_refl _)
  next =>
    show Expr.Placed _ _ (.mk cs none (c₂.spanFrom c.pos))
    rw [hc.spanFrom h₂]
    exact .mk (hc.between h₂) halternatives (by rintro l' ⟨⟩)

omit hadv in
theorem arg_places : Places src (Arg.Placed src) (arg chain) := by
  intro c hc
  unfold arg
  split
  · exact (literal_places hc).bind fun l after _ hwithin => .literal hwithin
  · split
    next hbool => exact .literal (hc.within (bool?_reaches hbool))
    next => exact (hchain hc).bind fun t after _ hplaced => .path hplaced

def ArgsClosed (src : String) (start : Nat) (c : Cursor) (as : List Arg) (after : Cursor) : Prop :=
  ∃ close, c.Reaches close ∧ close.eat? ')' = some after ∧
    ∀ a ∈ as, Arg.Placed src ⟨start, close.pos⟩ a

theorem argsOnto_lands (bound start : Nat) {out : List Arg} (hc : c.In src)
    (hstart : start ≤ c.pos) (hout : ∀ a ∈ out, Arg.Placed src ⟨start, c.pos⟩ a) :
    Lands src (ArgsClosed src start c) (argsOnto chain bound out c) := by
  induction bound generalizing out c with
  | zero => exact hc.expected _
  | succ bound ih =>
    unfold argsOnto
    refine (arg_places hchain hc).bind fun a after ha hplaced => ?_
    have hskip := (arg_advances hadv ha).trans after.skipBlanks_reaches
    have hnew : Arg.Placed src ⟨start, after.skipBlanks.pos⟩ a :=
      hplaced.mono hstart after.skipBlanks_reaches.pos_le
    have hold : ∀ b ∈ out, Arg.Placed src ⟨start, after.skipBlanks.pos⟩ b :=
      fun b hb => (hout b hb).mono (Nat.le_refl _) hskip.pos_le
    have hall := List.forall_mem_cons.mpr ⟨hnew, hold⟩
    dsimp only
    split
    next comma hcomma =>
      have hmore := (eat?_reaches hcomma).trans comma.skipBlanks_reaches
      have hnext := hskip.trans hmore
      have hlands := ih (hc.reaches hnext) (hstart.trans hnext.pos_le)
        fun b hb => (hall b hb).mono (Nat.le_refl _) hmore.pos_le
      revert hlands
      cases argsOnto chain bound (a :: out) comma.skipBlanks with
      | error e => exact id
      | ok r =>
        rintro ⟨close, hclose, heat, hargs⟩
        exact ⟨close, hnext.trans hclose, heat, hargs⟩
    next close hclose =>
      exact ⟨after.skipBlanks, hskip, hclose, fun b hb => hall b (List.mem_reverse.mp hb)⟩
    next => exact (hc.reaches hskip).expected _

theorem args_lands (hc : c.In src) : Lands src (ArgsClosed src c.pos c) (args chain c) := by
  have hskip := c.skipBlanks_reaches
  unfold args
  dsimp only
  split
  next after hclose => exact ⟨c.skipBlanks, hskip, hclose, by simp⟩
  next =>
    have hlands := argsOnto_lands hchain hadv (c.skipBlanks.rest.length + 1) c.pos
      (hc.reaches hskip) hskip.pos_le (List.forall_mem_nil _)
    revert hlands
    cases argsOnto chain (c.skipBlanks.rest.length + 1) [] c.skipBlanks with
    | error e => exact id
    | ok r =>
      rintro ⟨close, hclose, heat, hargs⟩
      exact ⟨close, hskip.trans hclose, heat, hargs⟩

omit hchain hadv in
theorem call_placed {c₁ inside : Cursor} {id : Ident} {as : List Arg} (hc : c.In src)
    (hid : c.ident? = some (id, c₁)) (hopen : c₁.eat? '(' = some inside)
    (hclosed : ArgsClosed src inside.pos inside as after) :
    Head.Placed src ⟨c.pos, after.pos⟩ (.call id as) := by
  obtain ⟨close, hclose, hlast, hargs⟩ := hclosed
  have hname := ident?_placed hc hid
  have hmore := (eat?_reaches hopen).trans (hclose.trans (eat?_reaches hlast))
  have hcall := (ident?_reaches hid).trans hmore
  obtain ⟨hrest, hpos, hspan⟩ := ident?_run hid
  rw [hc.spanFrom (ident?_reaches hid)] at hspan
  obtain ⟨hrest₁, hpos₁⟩ := eat?_eq_some hopen
  obtain ⟨text, hrest₂, hpos₂⟩ := hclose
  obtain ⟨hrest₃, hpos₃⟩ := eat?_eq_some hlast
  have hslice : (Span.mk c.pos after.pos).slice src =
      String.ofList (id.name.toList ++ ['('] ++ text ++ [')']) := by
    refine hc.slice ?_ ?_
    · simp [hrest, hrest₁, hrest₂, hrest₃]
    · simp only [hpos₃, hpos₂, hpos₁, hpos, Text.byteLength_append, Text.byteLength_cons,
        Text.byteLength_nil]
      omega
  have hfirst : inside.pos = c₁.pos + 1 := hpos₁
  have hstop : close.pos ≤ after.pos - 1 := by
    rw [hpos₃]
    exact Nat.le_refl _
  have hwithin : (Span.mk id.span.start after.pos).Within src ⟨c.pos, after.pos⟩ := by
    rw [hspan]
    exact hc.between hcall
  refine .call hwithin ⟨String.ofList text, ?_⟩ ?_ ?_
  · rw [hspan, hslice]
    simp [String.ofList_append, String.append_assoc]
  · rw [hspan]
    exact hname.mono (Nat.le_refl _) hmore.pos_le
  · intro a ha
    rw [hspan]
    exact (hargs a ha).mono (Nat.le_of_eq hfirst.symm) hstop

theorem joinItem_places : Places src (JoinItem.Placed src) (joinItem chain) := by
  intro c hc
  unfold joinItem
  split
  · exact (quoted_lands hc).bind fun s after hs _ => .text (hc.within (quoted_reaches hs))
  · split
    · exact (expr_places hchain hadv hc).bind fun e after _ hplaced => .expr hplaced
    · exact hc.expected "join item"

theorem joinItemsOnto_lands (bound start : Nat) {out : List JoinItem} (hc : c.In src)
    (hstart : start ≤ c.pos) (hout : ∀ i ∈ out, JoinItem.Placed src ⟨start, c.pos⟩ i) :
    Lands src (fun items after => ∀ i ∈ items, JoinItem.Placed src ⟨start, after.pos⟩ i)
      (joinItemsOnto chain bound out c) := by
  induction bound generalizing out c with
  | zero => exact hc.expected _
  | succ bound ih =>
    have hblanks := c.skipBlanks_reaches
    unfold joinItemsOnto
    refine (joinItem_places hchain hadv (hc.reaches hblanks)).bind fun i after hi hplaced => ?_
    have hskip := hblanks.trans ((joinItem_advances hadv hi).trans after.skipBlanks_reaches)
    have hnew : JoinItem.Placed src ⟨start, after.skipBlanks.pos⟩ i :=
      hplaced.mono (hstart.trans hblanks.pos_le) after.skipBlanks_reaches.pos_le
    have hold : ∀ j ∈ out, JoinItem.Placed src ⟨start, after.skipBlanks.pos⟩ j :=
      fun j hj => (hout j hj).mono (Nat.le_refl _) hskip.pos_le
    have hall := List.forall_mem_cons.mpr ⟨hnew, hold⟩
    dsimp only
    split
    next comma hcomma =>
      have hmore := eat?_reaches hcomma
      have hnext := hskip.trans hmore
      exact ih (hc.reaches hnext) (hstart.trans hnext.pos_le)
        fun j hj => (hall j hj).mono (Nat.le_refl _) hmore.pos_le
    next close hclose =>
      exact fun j hj => (hall j (List.mem_reverse.mp hj)).mono (Nat.le_refl _)
        (eat?_reaches hclose).pos_le
    next => exact (hc.reaches hskip).expected _

theorem head_places : Places src (Head.Placed src) (head chain) := by
  intro c hc
  unfold head
  split
  · exact (key_places hc).bind fun id after _ hwithin => .key hwithin
  · refine (ident_places _ hc).bind fun id c₁ hid hplaced => ?_
    have h₁ := ident_reaches hid
    dsimp only
    split
    next inside hopen =>
      have h₂ := eat?_reaches hopen
      refine (args_lands hchain hadv (hc.reaches (h₁.trans h₂))).bind fun as after has hclosed => ?_
      exact call_placed hc (ident_isName hid) hopen hclosed
    next => exact .name hplaced

theorem dotStep_places {start : Cursor} (hs : start.In src) (hr : start.Reaches c) :
    Lands src (fun s after => Step.Placed src ⟨start.pos, after.pos⟩ s)
      (dotStep chain start.pos c) := by
  have hc := hs.reaches hr
  unfold dotStep
  split
  · have hnext := c.next_reaches
    refine (joinItemsOnto_lands hchain hadv _ start.pos (hc.reaches hnext)
      (hr.trans hnext).pos_le (List.forall_mem_nil _)).bind fun items after hitems hplaced => ?_
    have hall := hr.trans (hnext.trans (joinItemsOnto_advances hadv _ _ hitems))
    show Step.Placed _ _ (.join items (after.spanFrom start.pos))
    rw [hs.spanFrom hall]
    exact .join (hs.between hall) hplaced
  · refine (ident_places _ hc).bind fun id c₁ hid hplaced => ?_
    have h₁ := ident_reaches hid
    dsimp only
    split
    next inside hopen =>
      have h₂ := (eat?_reaches hopen).trans inside.skipBlanks_reaches
      split
      next after hclose =>
        exact .call (hplaced.mono hr.pos_le (h₂.trans (eat?_reaches hclose)).pos_le)
      next => exact (hc.reaches (h₁.trans h₂)).expected _
    next => exact .member (hplaced.mono hr.pos_le (Nat.le_refl _))

theorem step?_lands (hc : c.In src) : ∀ x ∈ step? chain c,
    Lands src (fun s after => Step.Placed src ⟨c.pos, after.pos⟩ s) x := by
  intro x hx
  unfold step? at hx
  split at hx
  · cases hx
    exact dotStep_places hchain hadv hc c.next_reaches
  · cases hx
    exact (key_places hc).bind fun id after _ hwithin => .key hwithin
  · cases hx

theorem stepsOnto_lands (bound start : Nat) {out : List Step} (hc : c.In src)
    (hstart : start ≤ c.pos) (hout : ∀ s ∈ out, Step.Placed src ⟨start, c.pos⟩ s) :
    Lands src (fun ss after => ∀ s ∈ ss, Step.Placed src ⟨start, after.pos⟩ s)
      (stepsOnto chain bound out c) := by
  induction bound generalizing out c with
  | zero => simpa [stepsOnto, Lands] using hout
  | succ bound ih =>
    have hlands := step?_lands hchain hadv hc
    unfold stepsOnto
    split
    · exact fun s hs => hout s (List.mem_reverse.mp hs)
    next step hstep =>
      refine (hlands step hstep).bind fun s after hs hplaced => ?_
      rw [hs] at hstep
      have hadvance := (step?_advances hadv hstep).1
      dsimp only
      split
      · exact lands_fail (hc.within hadvance)
      · have hnew : Step.Placed src ⟨start, after.pos⟩ s := hplaced.mono hstart (Nat.le_refl _)
        have hold : ∀ s ∈ out, Step.Placed src ⟨start, after.pos⟩ s :=
          fun s hs => (hout s hs).mono (Nat.le_refl _) hadvance.pos_le
        exact ih (hc.reaches hadvance) (hstart.trans hadvance.pos_le)
          (List.forall_mem_cons.mpr ⟨hnew, hold⟩)

end Levels

theorem arithmetic_places (joined : Bool) :
    Places src (fun outer a => ∀ x ∈ a, x.span.Within src outer) (arithmetic joined) := by
  intro c hc
  unfold arithmetic
  split
  · exact fun x hx => by cases hx
  · have hskip := c.next_reaches.trans c.next.skipBlanks_reaches
    refine (number_lands (hc.reaches hskip)).bind fun n after hn _ => ?_
    have hwithin := hc.within (hskip.trans (number_reaches hn))
    dsimp only
    split
    · exact lands_fail hwithin
    · rintro x ⟨⟩
      exact hwithin

theorem conversion_places (joined : Bool) :
    Places src (fun outer v => ∀ x ∈ v, x.span.Within src outer) (conversion joined) := by
  intro c hc
  unfold conversion
  split
  · exact fun x hx => by cases hx
  next word hword =>
    have hskip := (word?_reaches hword).trans word.skipBlanks_reaches
    refine (ident_places _ (hc.reaches hskip)).bind fun id after hid hplaced => ?_
    have hwithin := hc.within (hskip.trans (ident_reaches hid))
    dsimp only
    split
    · exact lands_fail hplaced.within
    · split
      · exact lands_fail hwithin
      · rintro x ⟨⟩
        exact hwithin

theorem chainLevel_places (hchain : Places src (Chain.Placed src) chain) (hadv : Advances chain) :
    Places src (Chain.Placed src) (chainLevel chain) := by
  intro c hc
  unfold chainLevel
  refine (head_places hchain hadv hc).bind fun hd c₁ hhead hplaced => ?_
  have h₁ := head_advances hadv hhead
  refine (stepsOnto_lands hchain hadv _ c₁.pos (hc.reaches h₁) (Nat.le_refl _)
    (List.forall_mem_nil _)).bind fun steps c₂ hsteps hsteps' => ?_
  have h₂ := stepsOnto_advances hadv _ _ hsteps
  have h₂' := h₁.trans (h₂.trans c₂.skipBlanks_reaches)
  refine (arithmetic_places _ (hc.reaches h₂')).bind fun a c₃ ha ha' => ?_
  have h₃ := arithmetic_advances _ ha
  have h₃' := h₂'.trans (h₃.trans c₃.skipBlanks_reaches)
  refine (conversion_places _ (hc.reaches h₃')).bind fun v c₄ hv hv' => ?_
  have h₄ := conversion_advances _ hv
  have hend := h₃'.trans h₄
  have hafter₃ := (h₃.trans c₃.skipBlanks_reaches).trans h₄
  have hafter₂ := (h₂.trans c₂.skipBlanks_reaches).trans hafter₃
  show Chain.Placed _ _ (.mk hd steps a v (c₄.spanFrom c.pos))
  rw [hc.spanFrom hend]
  refine .mk (hc.between hend) (hplaced.mono (Nat.le_refl _) hafter₂.pos_le) ?_ ?_ ?_
  · exact fun s hs => (hsteps' s hs).mono h₁.pos_le
      (c₂.skipBlanks_reaches.trans hafter₃).pos_le
  · exact fun x hx => (ha' x hx).mono h₂'.pos_le (c₃.skipBlanks_reaches.trans h₄).pos_le
  · exact fun x hx => (hv' x hx).mono h₃'.pos_le (Nat.le_refl _)

theorem chain_places (limit levels : Nat) :
    Places src (Chain.Placed src) (Parser.chain limit levels) := by
  induction levels with
  | zero => exact fun hc => lands_fail hc.here
  | succ levels ih => exact chainLevel_places ih (chain_advances limit levels)

def ExprClosed (src : String) (c : Cursor) (e : Expr) (after : Cursor) : Prop :=
  ∃ close, c.Reaches close ∧ close.eat? '}' = some after ∧ Expr.Placed src ⟨c.pos, close.pos⟩ e

theorem expression_lands (hchain : Places src (Chain.Placed src) chain) (hadv : Advances chain)
    {start : Cursor} (hs : start.In src) (hr : start.Reaches c) :
    Lands src (ExprClosed src c) (expression chain start.pos c) := by
  have hskip := c.skipBlanks_reaches
  have hr' := hr.trans hskip
  unfold expression
  dsimp only
  split
  · exact lands_fail (hs.within hr')
  · split
    next close hclose => exact lands_fail (hs.within (hr'.trans (eat?_reaches hclose)))
    next =>
      refine (expr_places hchain hadv (hs.reaches hr')).bind fun e c₁ he hplaced => ?_
      have h₁ := (expr_advances hadv he).trans c₁.skipBlanks_reaches
      dsimp only
      split
      next close hclose =>
        exact ⟨c₁.skipBlanks, hskip.trans h₁, hclose,
          hplaced.mono hskip.pos_le c₁.skipBlanks_reaches.pos_le⟩
      next =>
        split
        · exact lands_fail (hs.within (hr'.trans h₁))
        · exact (hs.reaches (hr'.trans h₁)).expected _

end Parser

/-- Text with every pair of dollar signs written once. -/
def undouble : List Char → List Char
  | '$' :: '$' :: rest => '$' :: undouble rest
  | x :: rest => x :: undouble rest
  | [] => []

/-- The segments from an offset on, each with the piece of the template that it is read from. -/
inductive Covers (src : String) : Nat → List Segment → List String → Prop
  | nil {start : Nat} : Covers src start [] []
  | text {start stop : Nat} {text : String} {segs : List Segment} {pieces : List String}
      (within : (Span.mk start stop).Within src (.whole src))
      (undoubled : text.toList = undouble ((Span.mk start stop).slice src).toList)
      (rest : Covers src stop segs pieces) :
      Covers src start (.text text ⟨start, stop⟩ :: segs) ((Span.mk start stop).slice src :: pieces)
  | expr {start stop : Nat} {e : Expr} {segs : List Segment} {pieces : List String}
      (within : (Span.mk start stop).Within src (.whole src))
      (braces : ∃ inside, (Span.mk start stop).slice src = "$\x7b" ++ inside ++ "\x7d")
      (placed : e.Placed src ⟨start + 2, stop - 1⟩) (rest : Covers src stop segs pieces) :
      Covers src start (.expr e :: segs) ((Span.mk start stop).slice src :: pieces)

theorem undouble_cons {x : Char} {rest : List Char} (h : x = '$' → rest.head? ≠ some '$') :
    undouble (x :: rest) = x :: undouble rest := by
  rw [undouble]
  rintro rest' rfl rfl
  exact h rfl rfl

theorem undouble_eq_nil {cs : List Char} (h : undouble cs = []) : cs = [] := by
  unfold undouble at h
  split at h
  · cases h
  · cases h
  · rfl

namespace Parser

open Cursor

variable {src : String} {chain : Reader Chain} {c start : Cursor}

/-- Pending text is what has been read since its start, with pairs of dollar signs written once. A
single dollar sign at its end is not followed by another. -/
structure Pending (start c : Cursor) (text : List Char) : Prop where
  reaches : start.Reaches c
  undoubled : ∀ run, start.rest = run ++ c.rest → ∀ tail, tail <+: c.rest →
    undouble (run ++ tail) = text.reverse ++ undouble tail

theorem Pending.none (c : Cursor) : Pending c c [] := by
  refine ⟨.refl c, fun run hrun tail _ => ?_⟩
  have hnil : run = [] := by simpa using hrun.symm
  rw [hnil]
  rfl

theorem Pending.step {text : List Char} {after : Cursor} {x : Char} (h : Pending start c text)
    (run : List Char) (hrest : c.rest = run ++ after.rest)
    (hpos : after.pos = c.pos + Text.byteLength run)
    (hx : ∀ tail, tail <+: after.rest → undouble (run ++ tail) = x :: undouble tail) :
    Pending start after (x :: text) := by
  refine ⟨h.reaches.trans ⟨run, hrest, hpos⟩, fun all hall tail htail => ?_⟩
  obtain ⟨before, hbefore, -⟩ := h.reaches
  have hsplit : all = before ++ run := by
    rw [hbefore, hrest, ← List.append_assoc] at hall
    exact List.append_cancel_right hall.symm
  have hprefix : run ++ tail <+: c.rest := by
    rw [hrest]
    exact (List.prefix_append_right_inj run).mpr htail
  rw [hsplit, List.append_assoc, h.undoubled before hbefore _ hprefix, hx tail htail]
  simp

theorem Pending.covers {text : List Char} (h : Pending start c text) (hs : start.In src)
    {segs : List Segment} {pieces : List String} (hrest : Covers src c.pos segs pieces)
    (hpieces : (pieces.map String.toList).flatten = c.rest) :
    ∃ pieces, Covers src start.pos (textSegment start.pos c.pos text ++ segs) pieces ∧
      (pieces.map String.toList).flatten = start.rest := by
  obtain ⟨run, hrun, hpos⟩ := h.reaches
  have hundoubled := h.undoubled run hrun [] (List.nil_prefix)
  have hslice := hs.slice hrun hpos
  simp only [undouble, List.append_nil] at hundoubled
  unfold textSegment
  split
  next hempty =>
    have hnil : run = [] := undouble_eq_nil (by simpa [List.isEmpty_iff.mp hempty] using hundoubled)
    subst hnil
    have hstart : c.pos = start.pos := by simpa using hpos
    exact ⟨pieces, hstart ▸ hrest, by simpa [hpieces] using hrun.symm⟩
  next =>
    have hspan := hs.spanFrom h.reaches
    refine ⟨(Span.mk start.pos c.pos).slice src :: pieces, ?_, ?_⟩
    · rw [Cursor.spanFrom] at hspan
      rw [hspan, List.singleton_append]
      refine .text (hs.between h.reaches).whole ?_ hrest
      rw [hslice, String.toList_ofList, String.toList_ofList, hundoubled]
    · simp [hslice, hpieces, hrun]

theorem covers_expr {after : Cursor} {e : Expr} {rest : List Char} (hc : c.In src)
    (hopen : c.rest = '$' :: '{' :: rest) (hclosed : ExprClosed src (c.advance 2) e after)
    {segs : List Segment} {pieces : List String} (hrest : Covers src after.pos segs pieces)
    (hpieces : (pieces.map String.toList).flatten = after.rest) :
    ∃ pieces, Covers src c.pos (.expr e :: segs) pieces ∧
      (pieces.map String.toList).flatten = c.rest := by
  obtain ⟨close, hclose, hlast, hplaced⟩ := hclosed
  have hreach := (c.advance_reaches 2).trans (hclose.trans (eat?_reaches hlast))
  obtain ⟨pos, chars⟩ := c
  subst hopen
  obtain ⟨inside, hinside, hposInside⟩ := hclose
  obtain ⟨hrestClose, hposClose⟩ := eat?_eq_some hlast
  simp only [advance, next_cons] at hinside hposInside hplaced
  have hslice : (Span.mk pos after.pos).slice src =
      String.ofList (['$', '{'] ++ inside ++ ['}']) := by
    refine hc.slice ?_ ?_
    · simp [hinside, hrestClose]
    · simp only [hposClose, hposInside, Text.byteLength_append, Text.byteLength_cons,
        Text.byteLength_nil]
      omega
  have hstop : close.pos ≤ after.pos - 1 := by
    rw [hposClose]
    exact Nat.le_refl _
  refine ⟨(Span.mk pos after.pos).slice src :: pieces, ?_, ?_⟩
  · refine .expr (hc.between hreach).whole ⟨String.ofList inside, ?_⟩ ?_ hrest
    · rw [hslice]
      apply String.toList_injective
      simp
    · exact hplaced.mono (Nat.le_refl _) hstop
  · simp [hslice, hpieces, hinside, hrestClose]

/-- From a place on, the segments cover what is left of the template, and before it the pending
text. -/
def Divides (src : String) (start : Cursor) (out : List Segment) :
    Except ParseError (List Segment) → Prop
  | .ok segs => ∃ more pieces, segs = out.reverse ++ more ∧ Covers src start.pos more pieces ∧
      (pieces.map String.toList).flatten = start.rest
  | .error e => e.span.Within src (.whole src)

theorem Divides.expr {text : List Char} {out : List Segment} {after : Cursor} {e : Expr}
    {rest : List Char} (hs : start.In src) (hp : Pending start c text)
    (hopen : c.rest = '$' :: '{' :: rest) (hclosed : ExprClosed src (c.advance 2) e after)
    {x : Except ParseError (List Segment)}
    (h : Divides src after (.expr e :: textSegment start.pos c.pos text ++ out) x) :
    Divides src start out x := by
  cases x with
  | error e => exact h
  | ok segs =>
    obtain ⟨more, pieces, hsegs, hcovers, hpieces⟩ := h
    obtain ⟨pieces, hcovers, hpieces⟩ :=
      covers_expr (hs.reaches hp.reaches) hopen hclosed hcovers hpieces
    obtain ⟨pieces, hcovers, hpieces⟩ := hp.covers hs hcovers hpieces
    refine ⟨_, pieces, ?_, hcovers, hpieces⟩
    rw [hsegs]
    simp [textSegment_reverse]

theorem segmentsOnto_divides (hchain : Places src (Chain.Placed src) chain)
    (hadv : Advances chain) (bound : Nat) {text : List Char} {out : List Segment}
    (hs : start.In src) (hp : Pending start c text) (hbound : c.rest.length < bound) :
    Divides src start out (segmentsOnto chain bound start.pos text out c) := by
  induction bound generalizing start text out c with
  | zero => exact absurd hbound (Nat.not_lt_zero _)
  | succ bound ih =>
    unfold segmentsOnto
    split
    next hnil =>
      have hnone : Covers src c.pos [] [] := .nil
      obtain ⟨pieces, hcovers, hpieces⟩ := hp.covers hs hnone (by simp [hnil])
      refine ⟨_, pieces, ?_, hcovers, hpieces⟩
      rw [List.reverse_append, textSegment_reverse, List.append_nil]
    next rest hpair =>
      obtain ⟨pos, chars⟩ := c
      subst hpair
      refine ih hs (hp.step ['$', '$'] rfl rfl fun tail _ => rfl) ?_
      simp only [advance, next_cons, List.length_cons] at hbound ⊢
      omega
    next rest hopen =>
      have hc := hs.reaches hp.reaches
      have hlands := expression_lands hchain hadv hc (c.advance_reaches 2)
      cases hread : expression chain c.pos (c.advance 2) with
      | error e =>
        rw [hread] at hlands
        exact hlands
      | ok r =>
        obtain ⟨e, after⟩ := r
        rw [hread] at hlands
        have hmore := (c.advance_reaches 2).trans (expression_advances hadv _ hread)
        have hshort : after.rest.length < bound :=
          Nat.lt_of_lt_of_le (expression_shortens hadv hopen hread) (Nat.le_of_lt_succ hbound)
        exact .expr hs hp hopen hlands (ih (hc.reaches hmore) (.none after) hshort)
    next x rest hnot hnot' hcons =>
      obtain ⟨pos, chars⟩ := c
      subst hcons
      refine ih hs (hp.step [x] rfl (by simp) fun tail htail => ?_) ?_
      · refine undouble_cons ?_
        rintro rfl hhead
        obtain ⟨more, rfl⟩ := List.head?_eq_some_iff.mp hhead
        obtain ⟨rest', rfl⟩ := htail
        exact hnot _ rfl rfl
      · simp only [next_cons, List.length_cons] at hbound ⊢
        omega

end Parser

theorem Cursor.ofString_in {s : String} (h : Text.byteLength s.toList ≤ Span.limit) :
    (Cursor.ofString s).In s :=
  ⟨h, [], rfl, rfl⟩

theorem parse_divides {s : String} (hs : Text.byteLength s.toList ≤ Span.limit) :
    Parser.Divides s (.ofString s) [] ((parse s).map (·.segments)) := by
  rw [parse_segments]
  exact Parser.segmentsOnto_divides (Parser.chain_places _ _) (Parser.chain_advances _ _) _
    (Cursor.ofString_in hs) (.none _) (Nat.lt_succ_self _)

/-- The segments of a template are its text piece by piece, and every part of it stands where its
span says, inside the part that it belongs to. When the template cannot be read, the error is about
a place in it. -/
theorem parse_places (s : String) (hs : Text.byteLength s.toList < 4294967296) :
    (∀ t, parse s = .ok t → ∃ pieces, Covers s 0 t.segments pieces ∧ String.join pieces = s) ∧
      ∀ e, parse s = .error e → e.span.Within s (.whole s) := by
  have hdivides := parse_divides (Nat.le_of_lt_succ hs)
  constructor
  · intro t ht
    rw [ht] at hdivides
    obtain ⟨segs, pieces, hsegs, hcovers, hpieces⟩ := hdivides
    obtain rfl : t.segments = segs := hsegs
    refine ⟨pieces, hcovers, String.toList_injective ?_⟩
    rw [String.toList_join, List.flatMap_def, hpieces]
    rfl
  · intro e he
    rw [he] at hdivides
    exact hdivides

theorem parse_places_multibyte :
    (∃ t pieces, parse "né$$ $\x7bf(a, b.c)[é] | p.\x7bx, 'é'\x7d ?? 1\x7d!" = .ok t ∧
      Covers "né$$ $\x7bf(a, b.c)[é] | p.\x7bx, 'é'\x7d ?? 1\x7d!" 0 t.segments pieces ∧
      String.join pieces = "né$$ $\x7bf(a, b.c)[é] | p.\x7bx, 'é'\x7d ?? 1\x7d!") ∧
    parse "é$\x7ba €\x7d" = .error ⟨.expected "`\x7d`" "`€`", ⟨6, 9⟩⟩ ∧
      (Span.mk 6 9).Within "é$\x7ba €\x7d" (.whole "é$\x7ba €\x7d") := by
  constructor
  · have hok : (parse "né$$ $\x7bf(a, b.c)[é] | p.\x7bx, 'é'\x7d ?? 1\x7d!").toBool := by
      decide +kernel
    obtain ⟨t, hparse⟩ := eq_ok_of_toBool hok
    obtain ⟨pieces, hcovers, hjoin⟩ := (parse_places _ (by decide +kernel)).1 t hparse
    exact ⟨t, pieces, hparse, hcovers, hjoin⟩
  · have hfail : (parse "é$\x7ba €\x7d").map (fun _ => ()) =
        .error ⟨.expected "`\x7d`" "`€`", ⟨6, 9⟩⟩ := by decide +kernel
    have hparse := eq_error_of_map hfail
    exact ⟨hparse, (parse_places _ (by decide +kernel)).2 _ hparse⟩

end Template

end PathTemplate
