import PathTemplate.Proofs.Template.Unlimited

/-!
How deep chains nest. A reader with a limit goes along with one without until it comes to a chain
that is too deep, and that is the first one of those that are. Main statement: what is read without
a limit is read the same if it nests within the limit, and refused at that chain otherwise.
-/

namespace PathTemplate

def Arg.chains : Arg → List Chain
  | .literal _ => []
  | .path c => [c]

def JoinItem.chains : JoinItem → List Chain
  | .text .. => []
  | .expr e => e.alternatives

def Head.chains : Head → List Chain
  | .call _ args => args.flatMap Arg.chains
  | _ => []

def Step.chains : Step → List Chain
  | .join items _ => items.flatMap JoinItem.chains
  | _ => []

/-- The chains that a chain is made of, from left to right: its arguments, then its joined items. -/
def Chain.inner (c : Chain) : List Chain := c.head.chains ++ c.steps.flatMap Step.chains

def Segment.chains : Segment → List Chain
  | .text .. => []
  | .expr e => e.alternatives

def Template.chains (t : Template) : List Chain := t.segments.flatMap Segment.chains

/-- The chains that stand in `levels` others each, from left to right, where the given ones stand in
none. -/
def chainsInside : (levels : Nat) → List Chain → List Chain
  | 0, cs => cs
  | levels + 1, cs => chainsInside levels (cs.flatMap Chain.inner)

def Chain.NestsWithin : (levels : Nat) → Chain → Prop
  | 0, _ => False
  | levels + 1, c => ∀ d ∈ c.inner, d.NestsWithin levels

def Template.NestsWithin (levels : Nat) (t : Template) : Prop :=
  ∀ c ∈ t.chains, c.NestsWithin levels

theorem chainsInside_append (levels : Nat) (cs ds : List Chain) :
    chainsInside levels (cs ++ ds) = chainsInside levels cs ++ chainsInside levels ds := by
  induction levels generalizing cs ds with
  | zero => rfl
  | succ levels ih => rw [chainsInside, List.flatMap_append, ih, chainsInside, chainsInside]

theorem chainsInside_eq_flatMap (levels : Nat) (cs : List Chain) :
    chainsInside levels cs = cs.flatMap fun c => chainsInside levels [c] := by
  induction cs with
  | nil =>
    induction levels with
    | zero => rfl
    | succ levels ih => exact ih
  | cons c cs ih => rw [← List.singleton_append, chainsInside_append, ih]; rfl

theorem chainsInside_eq_nil {levels : Nat} {cs : List Chain} :
    chainsInside levels cs = [] ↔ ∀ c ∈ cs, c.NestsWithin levels := by
  induction levels generalizing cs with
  | zero => simp [chainsInside, Chain.NestsWithin, List.eq_nil_iff_forall_not_mem]
  | succ levels ih =>
    rw [chainsInside, ih]
    simp only [List.mem_flatMap, Chain.NestsWithin]
    exact ⟨fun h c hc d hd => h d ⟨c, hc, hd⟩, fun h d ⟨c, hc, hd⟩ => h c hc d hd⟩

namespace Template

/-- What a reader with a limit makes of what lies between two offsets, where one without gives
`full`. Of the chains that are too deep, which stand there in `deep` from left to right, it finds
the first. -/
structure Cut {α : Type} (limit lo hi : Nat) (deep : List Chain) (full : α)
    (result : Except ParseError α) : Prop where
  le : lo ≤ hi
  ordered : deep.Pairwise fun c d => c.span.start ≤ d.span.start
  between : ∀ c ∈ deep, min lo Span.limit ≤ c.span.start ∧ c.span.start ≤ min hi Span.limit
  whole : deep = [] → result = .ok full
  stopped : ∀ c ∈ deep.head?, ∃ span : Span, span.start = c.span.start ∧
    result = .error ⟨.tooDeep limit, span⟩

namespace Cut

variable {α β : Type} {limit lo mid hi : Nat} {deep deep' : List Chain} {a : α} {b : β}
  {x : Except ParseError α} {f : α → Except ParseError β}

theorem ok (h : lo ≤ hi) : Cut limit lo hi [] a (.ok a) where
  le := h
  ordered := .nil
  between := by simp
  whole _ := rfl
  stopped := by simp

theorem widen {lo' hi' : Nat} (h : Cut limit lo hi deep a x) (hlo : lo' ≤ lo) (hhi : hi ≤ hi') :
    Cut limit lo' hi' deep a x where
  le := hlo.trans (h.le.trans hhi)
  ordered := h.ordered
  between c hc := by
    have := h.between c hc
    omega
  whole := h.whole
  stopped := h.stopped

theorem bind (hx : Cut limit lo mid deep a x) (hf : Cut limit mid hi deep' b (f a)) :
    Cut limit lo hi (deep ++ deep') b (x >>= f) where
  le := hx.le.trans hf.le
  ordered := by
    refine List.pairwise_append.mpr ⟨hx.ordered, hf.ordered, fun c hc d hd => ?_⟩
    exact (hx.between c hc).2.trans (hf.between d hd).1
  between c hc := by
    have hle := hx.le
    have hle' := hf.le
    rcases List.mem_append.mp hc with hc | hc
    · have := hx.between c hc
      omega
    · have := hf.between c hc
      omega
  whole hnil := by
    obtain ⟨hdeep, hdeep'⟩ := List.append_eq_nil_iff.mp hnil
    rw [hx.whole hdeep]
    exact hf.whole hdeep'
  stopped c hc := by
    cases deep with
    | nil =>
      rw [hx.whole rfl]
      exact hf.stopped c hc
    | cons d deep =>
      obtain ⟨span, hstart, herror⟩ := hx.stopped d rfl
      obtain rfl : d = c := by simpa using hc
      exact ⟨span, hstart, by rw [herror]; rfl⟩

theorem map {full : β} (hx : Cut limit lo mid deep a x) (hle : mid ≤ hi) (hf : f a = .ok full) :
    Cut limit lo hi deep full (x >>= f) := by
  have h := hx.bind (hf ▸ ok hle)
  rwa [List.append_nil] at h

end Cut

/-- Where one reader gives something, the other does, or it stops at the first chain too deep. -/
def Limits {α : Type} (limit : Nat) (deep : α → List Chain) (free reader : Reader α) : Prop :=
  ∀ {c a after}, free c = .ok (a, after) →
    Cut limit c.pos after.pos (deep a) (a, after) (reader c)

namespace Parser

open Cursor

variable {limit : Nat} {deep : Chain → List Chain} {free reader : Reader Chain} {c after : Cursor}

theorem alternativesOnto_cut (h : Limits limit deep free reader) (bound : Nat)
    {out cs : List Chain} (hfree : alternativesOnto free bound out c = .ok (cs, after)) :
    ∃ more, cs = out.reverse ++ more ∧ Cut limit c.pos after.pos (more.flatMap deep) (cs, after)
      (alternativesOnto reader bound out c) := by
  induction bound generalizing out c with
  | zero =>
    cases hfree
    exact ⟨[], by simp, .ok Nat.le.refl⟩
  | succ bound ih =>
    rcases alternativesOnto_eq_ok.mp hfree with ⟨bar, hbar, t, c', ht, hfree⟩ | ⟨hbar, rfl, rfl⟩
    · obtain ⟨more, rfl, hmore⟩ := ih hfree
      refine ⟨t :: more, by simp, ?_⟩
      have hstart := (c.skipBlanks_reaches.trans ((eat?_reaches hbar).trans
        bar.skipBlanks_reaches)).pos_le
      rw [alternativesOnto, hbar]
      exact ((h ht).widen hstart Nat.le.refl).bind hmore
    · refine ⟨[], by simp, ?_⟩
      rw [alternativesOnto, hbar]
      exact .ok c.skipBlanks_reaches.pos_le

theorem expr_limits (h : Limits limit deep free reader) :
    Limits limit (fun e => e.alternatives.flatMap deep) (expr free) (expr reader) := by
  intro c e after hfree
  obtain ⟨first, c₁, hfirst, cs, c₂, hcs, hfree⟩ := expr_eq_ok.mp hfree
  obtain ⟨more, rfl, hmore⟩ := alternativesOnto_cut h _ hcs
  rw [expr]
  rcases hfree with ⟨mark, hmark, l, hl, rfl⟩ | ⟨hmark, rfl, rfl⟩
  · have hend := (defaultMark?_reaches hmark).trans
      (mark.skipBlanks_reaches.trans (defaultLiteral_reaches hl))
    exact (h hfirst).bind (hmore.map hend.pos_le (by simp only [hmark, hl]; rfl))
  · exact (h hfirst).bind (hmore.map Nat.le.refl (by simp only [hmark]; rfl))

theorem arg_limits (h : Limits limit deep free reader) :
    Limits limit (fun a => a.chains.flatMap deep) (arg free) (arg reader) := by
  intro c a after hfree
  rw [arg]
  rcases arg_eq_ok.mp hfree with ⟨hat, l, hl, rfl⟩ | ⟨hat, b, hbool, rfl⟩ | ⟨hat, hbool, t, ht, rfl⟩
  · simp only [hat, hl]
    exact .ok (literal_reaches hl).pos_le
  · simp only [hat, hbool]
    exact .ok (bool?_reaches hbool).pos_le
  · simp only [hat, hbool]
    rw [Arg.chains, List.flatMap_singleton]
    exact (h ht).map Nat.le.refl rfl

theorem argsOnto_cut (h : Limits limit deep free reader) (bound : Nat) {out as : List Arg}
    (hfree : argsOnto free bound out c = .ok (as, after)) :
    ∃ more, as = out.reverse ++ more ∧
      Cut limit c.pos after.pos ((more.flatMap Arg.chains).flatMap deep) (as, after)
        (argsOnto reader bound out c) := by
  induction bound generalizing out c with
  | zero => cases hfree
  | succ bound ih =>
    obtain ⟨a, c', ha, hfree⟩ := argsOnto_eq_ok.mp hfree
    rw [argsOnto]
    rcases hfree with ⟨comma, hcomma, hfree⟩ | ⟨hcomma, hclose, rfl⟩
    · obtain ⟨more, rfl, hmore⟩ := ih hfree
      refine ⟨a :: more, by simp, ?_⟩
      have hskip := (c'.skipBlanks_reaches.trans ((eat?_reaches hcomma).trans
        comma.skipBlanks_reaches)).pos_le
      rw [List.flatMap_cons, List.flatMap_append]
      refine (arg_limits h ha).bind ?_
      simp only [hcomma]
      exact hmore.widen hskip Nat.le.refl
    · refine ⟨[a], by simp, ?_⟩
      have hend := (c'.skipBlanks_reaches.trans (eat?_reaches hclose)).pos_le
      rw [List.flatMap_singleton]
      exact (arg_limits h ha).map hend (by simp only [hcomma, hclose]; rfl)

theorem args_limits (h : Limits limit deep free reader) :
    Limits limit (fun as => (as.flatMap Arg.chains).flatMap deep) (args free) (args reader) := by
  intro c as after hfree
  rw [args]
  have hskip := c.skipBlanks_reaches
  rcases args_eq_ok.mp hfree with ⟨hclose, rfl⟩ | ⟨hclose, hfree⟩
  · simp only [hclose]
    exact .ok (hskip.trans (eat?_reaches hclose)).pos_le
  · obtain ⟨more, rfl, hmore⟩ := argsOnto_cut h _ hfree
    simp only [hclose]
    exact hmore.widen hskip.pos_le Nat.le.refl

theorem joinItem_limits (h : Limits limit deep free reader) :
    Limits limit (fun i => i.chains.flatMap deep) (joinItem free) (joinItem reader) := by
  intro c i after hfree
  rw [joinItem]
  rcases joinItem_eq_ok.mp hfree with ⟨hat, s, hs, rfl⟩ | ⟨hat, hpath, e, he, rfl⟩
  · simp only [hat, hs]
    exact .ok (quoted_reaches hs).pos_le
  · have hpath : (c.atName || decide (c.peek = some '[')) = true := by simpa using hpath
    simp only [hat, hpath]
    exact (expr_limits h he).map Nat.le.refl rfl

theorem joinItemsOnto_cut (h : Limits limit deep free reader) (bound : Nat)
    {out items : List JoinItem} (hfree : joinItemsOnto free bound out c = .ok (items, after)) :
    ∃ more, items = out.reverse ++ more ∧
      Cut limit c.pos after.pos ((more.flatMap JoinItem.chains).flatMap deep) (items, after)
        (joinItemsOnto reader bound out c) := by
  induction bound generalizing out c with
  | zero => cases hfree
  | succ bound ih =>
    obtain ⟨i, c', hi, hfree⟩ := joinItemsOnto_eq_ok.mp hfree
    have hitem := (joinItem_limits h hi).widen c.skipBlanks_reaches.pos_le Nat.le.refl
    rw [joinItemsOnto]
    rcases hfree with ⟨comma, hcomma, hfree⟩ | ⟨hcomma, hclose, rfl⟩
    · obtain ⟨more, rfl, hmore⟩ := ih hfree
      refine ⟨i :: more, by simp, ?_⟩
      have hskip := (c'.skipBlanks_reaches.trans (eat?_reaches hcomma)).pos_le
      rw [List.flatMap_cons, List.flatMap_append]
      refine hitem.bind ?_
      simp only [hcomma]
      exact hmore.widen hskip Nat.le.refl
    · refine ⟨[i], by simp, ?_⟩
      have hend := (c'.skipBlanks_reaches.trans (eat?_reaches hclose)).pos_le
      rw [List.flatMap_singleton]
      exact hitem.map hend (by simp only [hcomma, hclose]; rfl)

theorem head_limits (h : Limits limit deep free reader) :
    Limits limit (fun hd => hd.chains.flatMap deep) (head free) (head reader) := by
  intro c hd after hfree
  rw [head]
  rcases head_eq_ok.mp hfree with ⟨hkey, k, hk, rfl⟩ | ⟨hkey, id, c', hid, hfree⟩
  · simp only [hkey, hk]
    exact .ok (key_reaches hk).pos_le
  · have hname := ident_reaches hid
    rw [if_neg hkey, hid]
    rcases hfree with ⟨inside, hopen, as, has, rfl⟩ | ⟨hopen, rfl, rfl⟩
    · have hstart := (hname.trans (eat?_reaches hopen)).pos_le
      refine (Cut.ok hstart).bind ?_
      simp only [hopen]
      exact (args_limits h has).map Nat.le.refl rfl
    · refine (Cut.ok hname.pos_le).bind ?_
      simp only [hopen]
      exact .ok Nat.le.refl

theorem dotStep_limits (h : Limits limit deep free reader) (start : Nat) :
    Limits limit (fun s => s.chains.flatMap deep) (dotStep free start) (dotStep reader start) := by
  intro c s after hfree
  rw [dotStep]
  rcases dotStep_eq_ok.mp hfree with ⟨hbrace, items, hitems, rfl⟩ | ⟨hbrace, id, c', hid, hfree⟩
  · obtain ⟨more, rfl, hmore⟩ := joinItemsOnto_cut h _ hitems
    rw [if_pos hbrace]
    exact (hmore.widen c.next_reaches.pos_le Nat.le.refl).map Nat.le.refl rfl
  · have hname := ident_reaches hid
    rw [if_neg hbrace, hid]
    rcases hfree with ⟨inside, hopen, hclose, rfl⟩ | ⟨hopen, rfl, rfl⟩
    · have hend := (eat?_reaches hopen).trans
        (inside.skipBlanks_reaches.trans (eat?_reaches hclose))
      refine (Cut.ok hname.pos_le).bind ?_
      simp only [hopen, hclose]
      exact .ok hend.pos_le
    · refine (Cut.ok hname.pos_le).bind ?_
      simp only [hopen]
      exact .ok Nat.le.refl

theorem step?_cut (h : Limits limit deep free reader) {s : Step}
    (hfree : step? free c = some (.ok (s, after))) :
    ∃ result, step? reader c = some result ∧
      Cut limit c.pos after.pos (s.chains.flatMap deep) (s, after) result := by
  rcases step?_eq_ok.mp hfree with ⟨hdot, hfree⟩ | ⟨hbracket, k, hk, rfl⟩
  · refine ⟨dotStep reader c.pos c.next, by simp only [step?, hdot], ?_⟩
    exact (dotStep_limits h _ hfree).widen c.next_reaches.pos_le Nat.le.refl
  · refine ⟨.ok (.key k, after), ?_, .ok (key_reaches hk).pos_le⟩
    simp only [step?, hbracket, hk]
    rfl

theorem stepsOnto_cut (h : Limits limit deep free reader) (bound : Nat) {out steps : List Step}
    (hfree : stepsOnto free bound out c = .ok (steps, after)) :
    ∃ more, steps = out.reverse ++ more ∧
      Cut limit c.pos after.pos ((more.flatMap Step.chains).flatMap deep) (steps, after)
        (stepsOnto reader bound out c) := by
  induction bound generalizing out c with
  | zero =>
    cases hfree
    exact ⟨[], by simp, .ok Nat.le.refl⟩
  | succ bound ih =>
    rw [stepsOnto]
    rcases stepsOnto_eq_ok.mp hfree with ⟨hnone, rfl, rfl⟩ | ⟨s, c', hstep, hlast, hfree⟩
    · rw [step?_eq_none.mpr (step?_eq_none.mp hnone)]
      exact ⟨[], by simp, .ok Nat.le.refl⟩
    · obtain ⟨more, rfl, hmore⟩ := ih hfree
      obtain ⟨result, hresult, hcut⟩ := step?_cut h hstep
      refine ⟨s :: more, by simp, ?_⟩
      rw [hresult, List.flatMap_cons, List.flatMap_append]
      refine hcut.bind ?_
      simp only [hlast]
      exact hmore

theorem chainLevel_limits (h : Limits limit deep free reader) :
    Limits limit (fun t => t.inner.flatMap deep) (chainLevel free) (chainLevel reader) := by
  intro c t after hfree
  obtain ⟨hd, c₁, hhead, steps, c₂, hsteps, a, c₃, ha, v, hv, rfl⟩ := chainLevel_eq_ok.mp hfree
  obtain ⟨_, rfl, hcut⟩ := stepsOnto_cut h _ hsteps
  have hend := c₂.skipBlanks_reaches.trans ((arithmetic_advances _ ha).trans
    (c₃.skipBlanks_reaches.trans (conversion_advances _ hv)))
  have hinner : (Chain.mk hd steps a v (after.spanFrom c.pos)).inner.flatMap deep =
      hd.chains.flatMap deep ++ (steps.flatMap Step.chains).flatMap deep :=
    List.flatMap_append
  rw [chainLevel]
  dsimp only
  rw [hinner]
  exact (head_limits h hhead).bind (hcut.map hend.pos_le
    (bind_eq_ok.mpr ⟨(a, c₃), ha, bind_eq_ok.mpr ⟨(v, after), hv, rfl⟩⟩))

/-- A reader for some levels stops at the first chain that stands in as many others. -/
theorem chain_limits (limit levels : Nat) :
    Limits limit (fun t => chainsInside levels [t]) unlimited (Parser.chain limit levels) := by
  induction levels with
  | zero =>
    intro c t after hfree
    have hle := (unlimited_advances hfree).pos_le
    rw [unlimited_eq] at hfree
    obtain ⟨hd, c₁, -, steps, c₂, -, a, c₃, -, v, -, rfl⟩ := chainLevel_eq_ok.mp hfree
    constructor
    case le => exact hle
    case ordered => exact List.pairwise_singleton _ _
    case between =>
      intro d hd
      obtain rfl := List.mem_singleton.mp hd
      change _ ≤ min c.pos Span.limit ∧ min c.pos Span.limit ≤ _
      omega
    case whole => nofun
    case stopped =>
      rintro d ⟨⟩
      exact ⟨c.here, rfl, rfl⟩
  | succ levels ih =>
    intro c t after hfree
    have hinside : chainsInside (levels + 1) [t] =
        t.inner.flatMap fun d => chainsInside levels [d] := by
      rw [chainsInside, List.flatMap_singleton, chainsInside_eq_flatMap]
    rw [unlimited_eq] at hfree
    dsimp only
    rw [hinside]
    exact chainLevel_limits ih hfree

theorem expression_limits (h : Limits limit deep free reader) (start : Nat) :
    Limits limit (fun e => e.alternatives.flatMap deep) (expression free start)
      (expression reader start) := by
  intro c e after hfree
  obtain ⟨hend, hclose, c', he, hbrace⟩ := expression_eq_ok.mp hfree
  have hlast := c'.skipBlanks_reaches.trans (eat?_reaches hbrace)
  rw [expression]
  simp only [hend, hclose]
  refine ((expr_limits h he).widen c.skipBlanks_reaches.pos_le Nat.le.refl).map hlast.pos_le ?_
  simp only [hbrace]
  rfl

theorem flatMap_chains_textSegment (start stop : Nat) (text : List Char) :
    (textSegment start stop text).flatMap Segment.chains = [] := by
  unfold textSegment
  split <;> rfl

theorem segmentsOnto_cut (h : Limits limit deep free reader) (bound : Nat) {start : Nat}
    {text : List Char} {out segs : List Segment}
    (hfree : segmentsOnto free bound start text out c = .ok segs) :
    ∃ more hi, segs = out.reverse ++ more ∧
      Cut limit c.pos hi ((more.flatMap Segment.chains).flatMap deep) segs
        (segmentsOnto reader bound start text out c) := by
  have hend : ∀ {start : Nat} {text : List Char} {out segs : List Segment} {stop : Nat},
      Except.ok (textSegment start stop text ++ out).reverse =
        (.ok segs : Except ParseError (List Segment)) →
      ∃ more hi, segs = out.reverse ++ more ∧
        Cut limit stop hi ((more.flatMap Segment.chains).flatMap deep) segs
          (.ok (textSegment start stop text ++ out).reverse) := by
    intro start text out segs stop heq
    cases heq
    refine ⟨textSegment start stop text, stop, ?_, ?_⟩
    · rw [List.reverse_append, textSegment_reverse]
    · rw [flatMap_chains_textSegment]
      exact .ok Nat.le.refl
  induction bound generalizing start text out c with
  | zero => exact hend hfree
  | succ bound ih =>
    obtain ⟨pos, rest⟩ := c
    rcases segment_cases rest with rfl | ⟨x, cs, rfl, hpair⟩ | ⟨cs, rfl⟩ | ⟨cs, rfl⟩
    · exact hend hfree
    · rw [segmentsOnto_char hpair] at hfree ⊢
      obtain ⟨more, hi, hsegs, hcut⟩ := ih hfree
      exact ⟨more, hi, hsegs, hcut.widen (Nat.le_add_right _ _) Nat.le.refl⟩
    · obtain ⟨more, hi, hsegs, hcut⟩ := ih hfree
      exact ⟨more, hi, hsegs, hcut.widen (advance_reaches _ 2).pos_le Nat.le.refl⟩
    · obtain ⟨⟨e, after⟩, he, hfree⟩ := bind_eq_ok.mp hfree
      obtain ⟨more, hi, rfl, hmore⟩ := ih hfree
      refine ⟨textSegment start pos text ++ .expr e :: more, hi, ?_, ?_⟩
      · simp [textSegment_reverse]
      · rw [List.flatMap_append, flatMap_chains_textSegment, List.nil_append, List.flatMap_cons,
          List.flatMap_append, segmentsOnto]
        refine ((expression_limits h pos he).widen (advance_reaches _ 2).pos_le Nat.le.refl).bind ?_
        exact hmore

end Parser

theorem parseWithin_cut (limit : Nat) {s : String} {t : Template}
    (hfree : parseUnlimited s = .ok t) :
    ∃ hi, Cut limit 0 hi (chainsInside limit t.chains) t (parseWithin limit s) := by
  obtain ⟨segs, hsegs, heq⟩ := bind_eq_ok.mp hfree
  cases heq
  obtain ⟨_, hi, rfl, hcut⟩ := Parser.segmentsOnto_cut (Parser.chain_limits limit limit) _ hsegs
  rw [chainsInside_eq_flatMap]
  exact ⟨hi, hcut.map Nat.le.refl rfl⟩

example : parseWithin 2 "$\x7ba(b, c(d, e(f)))\x7d" = .error ⟨.tooDeep 2, ⟨9, 10⟩⟩ := rfl

end Template

theorem Chain.FitsOver.inner {P : Chain → Prop} {c : Chain} (h : c.FitsOver P) :
    ∀ d ∈ c.inner, P d := by
  intro d hd
  rcases List.mem_append.mp hd with hd | hd
  · have hhead := h.head
    cases hc : c.head with
    | name id => simp [hc, Head.chains] at hd
    | key id => simp [hc, Head.chains] at hd
    | call id args =>
      rw [hc] at hd hhead
      obtain ⟨a, ha, hda⟩ := List.mem_flatMap.mp hd
      cases a with
      | literal l => simp [Arg.chains] at hda
      | path p =>
        obtain rfl := List.mem_singleton.mp hda
        exact (hhead.2 _ ha).1
  · obtain ⟨s, hs, hd⟩ := List.mem_flatMap.mp hd
    have hstep := h.steps s hs
    cases s with
    | member id => simp [Step.chains] at hd
    | call id => simp [Step.chains] at hd
    | key id => simp [Step.chains] at hd
    | join items span =>
      obtain ⟨i, hi, hdi⟩ := List.mem_flatMap.mp hd
      cases i with
      | text text span => simp [JoinItem.chains] at hdi
      | expr e => exact (hstep.2 _ hi).2.1 d hdi

theorem Chain.NestsWithin.of_within {levels : Nat} {c : Chain} (h : c.Within levels) :
    c.NestsWithin levels := by
  induction levels generalizing c with
  | zero => exact h
  | succ levels ih => exact fun d hd => ih (Chain.FitsOver.inner h d hd)

theorem Template.nestsWithin_of_segmentsFit {segs : List Segment} (h : SegmentsFit segs) :
    ∀ c ∈ segs.flatMap Segment.chains, c.NestsWithin maxNesting := by
  induction segs with
  | nil => simp
  | cons seg segs ih =>
    intro c hc
    rcases List.mem_append.mp hc with hfirst | hmore
    · cases seg with
      | text text span => simp [Segment.chains] at hfirst
      | expr e => exact .of_within (h.1.2.1 c hfirst)
    · cases seg with
      | text text span => exact ih h.2.2 c hmore
      | expr e => exact ih h.2 c hmore

/-- What nests within the limit is read as it would be without one. What nests deeper is refused at
the first character of the first chain that stands in too many others. So whatever is read nests
within the limit. -/
theorem Template.nesting_limit_exact :
    (∀ c, Parser.unlimited c = Parser.chainLevel Parser.unlimited c) ∧
    (∀ s t, parseUnlimited s = .ok t →
      (t.NestsWithin maxNesting → parse s = .ok t) ∧
      (¬ t.NestsWithin maxNesting → ∃ first more span,
        chainsInside maxNesting t.chains = first :: more ∧
        (∀ c ∈ more, first.span.start ≤ c.span.start) ∧
        parse s = .error ⟨.tooDeep maxNesting, span⟩ ∧ span.start = first.span.start)) ∧
    ∀ s t, parse s = .ok t → t.NestsWithin maxNesting := by
  refine ⟨fun c => congrFun Parser.unlimited_eq c, ?_, ?_⟩
  · intro s t hfree
    obtain ⟨hi, hcut⟩ := parseWithin_cut maxNesting hfree
    constructor
    · intro hnests
      exact hcut.whole (chainsInside_eq_nil.mpr hnests)
    · intro hdeep
      obtain ⟨first, more, hchains⟩ := List.exists_cons_of_ne_nil (mt chainsInside_eq_nil.mp hdeep)
      have hordered := hcut.ordered
      rw [hchains] at hordered
      obtain ⟨span, hstart, herror⟩ := hcut.stopped first (by rw [hchains]; rfl)
      exact ⟨first, more, span, hchains, (List.pairwise_cons.mp hordered).1, herror, hstart⟩
  · intro s t h
    exact nestsWithin_of_segmentsFit (parse_fits h)

def deepCalls : List Char :=
  ['$', '\x7b'] ++ (List.replicate Template.maxNesting ['f', '(']).flatten ++ 'x' ::
    List.replicate Template.maxNesting ')' ++ ['\x7d']

theorem Template.nesting_limit_exact_calls : ∃ t first more span,
    parseUnlimited (.ofList deepCalls) = .ok t ∧ ¬ t.NestsWithin maxNesting ∧
    chainsInside maxNesting t.chains = first :: more ∧
    parse (.ofList deepCalls) = .error ⟨.tooDeep maxNesting, span⟩ ∧
    span.start = first.span.start ∧ span.start = 258 := by
  have hread : (parseUnlimited (.ofList deepCalls)).toOption.map (fun t =>
      (chainsInside maxNesting t.chains).map fun c => c.span.start) = some [258] := by
    simp only [parseUnlimited, Cursor.ofString, String.toList_ofList, String.length_ofList]
    decide +kernel
  obtain ⟨t, ht, hstarts⟩ := Option.map_eq_some_iff.mp hread
  have ht := eq_ok_of_toOption ht
  have hdeep : ¬ t.NestsWithin maxNesting := by
    intro h
    rw [chainsInside_eq_nil.mpr h] at hstarts
    cases hstarts
  obtain ⟨first, more, span, hchains, -, herror, hstart⟩ :=
    (nesting_limit_exact.2.1 _ t ht).2 hdeep
  rw [hchains, List.map_cons, List.cons.injEq] at hstarts
  exact ⟨t, first, more, span, ht, hdeep, hchains, herror, hstart, hstart.trans hstarts.1⟩

end PathTemplate
