import PathTemplate.Proofs.Template.Following

/-!
Printed chains are read back. Each part is read up to what follows it: a chain up to a mark, a comma
or a closing bracket, an expression up to a comma or a brace. That the parts of a chain are read
back rests on the chains inside, so that chains follow level by level, as they are read.
-/

namespace PathTemplate.Template

open Cursor

namespace Parser

variable {form : FloatForm} {below : Reader Chain} {P : Chain → Prop}

/-- The reader takes the text for `a`, apart from places, and ends right before what follows. -/
def Reads {α : Type} (reader : Reader α) (bare : α → α) (a : α) (text rest : List Char) : Prop :=
  ∀ pos, ∃ a' stop, reader ⟨pos, text ++ rest⟩ = .ok (a', ⟨stop, rest⟩) ∧ bare a' = bare a

/-- As `Reads`, but the reader may go on over the blanks. -/
def ReadsLoosely {α : Type} (reader : Reader α) (bare : α → α) (a : α) (text rest : List Char) :
    Prop :=
  ∀ pos, ∃ a' after, reader ⟨pos, text ++ rest⟩ = .ok (a', after) ∧
    after.rest.dropWhile Text.isBlank = rest.dropWhile Text.isBlank ∧ bare a' = bare a

def StartsChain (cs : List Char) : Prop :=
  ∃ x tail, cs = x :: tail ∧ (isNameStart x ∨ x = '[')

/-- What it takes for a chain to be read back. -/
structure Readable (form : FloatForm) (chain : Reader Chain) (t : Chain) : Prop where
  starts : StartsChain (t.print form)
  notBool : t.IsPath → ∀ {rest}, Follows rest → ∀ pos, bool? ⟨pos, t.print form ++ rest⟩ = none
  reads : ∀ {rest}, Follows rest → ReadsLoosely chain Chain.unplaced t (t.print form) rest

theorem StartsChain.append {cs : List Char} (h : StartsChain cs) (rest : List Char) :
    StartsChain (cs ++ rest) := by
  obtain ⟨x, tail, rfl, hx⟩ := h
  exact ⟨x, tail ++ rest, rfl, hx⟩

theorem StartsChain.opens {cs : List Char} (h : StartsChain cs) : Opens cs := by
  obtain ⟨x, tail, rfl, hx | rfl⟩ := h
  · exact opens_of_isNameStart hx tail
  · exact ⟨'[', tail, rfl, by decide⟩

theorem StartsChain.notLiteral {cs : List Char} (h : StartsChain cs) (pos : Nat) :
    atQuote ⟨pos, cs⟩ = false ∧ atNumber ⟨pos, cs⟩ = false := by
  obtain ⟨x, tail, rfl, hx⟩ := h
  have hquotes : x ≠ '"' ∧ x ≠ '\'' := by
    constructor
    · rintro rfl
      revert hx
      decide
    · rintro rfl
      revert hx
      decide
  refine ⟨by simp [atQuote, hquotes], ?_⟩
  rcases hx with hx | rfl
  · cases hat : atNumber ⟨pos, x :: tail⟩ with
    | false => rfl
    | true => simp [(atNumber_first hat).2.1] at hx
  · rfl

theorem startsChain_boolText (b : Bool) (rest : List Char) : StartsChain (boolText b ++ rest) := by
  cases b with
  | true => exact ⟨'t', _, rfl, .inl (by decide)⟩
  | false => exact ⟨'f', _, rfl, .inl (by decide)⟩

theorem follows_printMore (form : FloatForm) {tail : List Char} (h : Follows tail)
    (more : List Chain) : Follows (Chain.printMore form more ++ tail) := by
  cases more with
  | nil => exact h
  | cons t more => exact .mark (x := '|') (by decide)

theorem alternativesOnto_reads (hbelow : ∀ t, P t → Readable form below t) {tail : List Char}
    (htail : Follows tail) (hbar : ∀ x ∈ (tail.dropWhile Text.isBlank).head?, x ≠ '|')
    (more : List Chain) (hmore : ∀ t ∈ more, P t) {bound : Nat} (out : List Chain) {c : Cursor}
    (hbound : (c.rest.dropWhile Text.isBlank).length < bound)
    (hc : c.rest.dropWhile Text.isBlank =
      (Chain.printMore form more ++ tail).dropWhile Text.isBlank) :
    ∃ more' stop, alternativesOnto below bound out c =
        .ok (out.reverse ++ more', ⟨stop, tail.dropWhile Text.isBlank⟩) ∧
      more'.map Chain.unplaced = more.map Chain.unplaced := by
  -- A chain may have ended within the blanks, so the place is known up to them only.
  induction more generalizing bound out c with
  | nil =>
    obtain ⟨bound, rfl⟩ := Nat.exists_eq_succ_of_ne_zero (Nat.ne_zero_of_lt hbound)
    obtain ⟨stop, hskip⟩ := skipBlanks_to hc
    have hnone : eat? ⟨stop, tail.dropWhile Text.isBlank⟩ '|' = none := by
      rw [eat?, if_neg]
      intro hpeek
      exact hbar '|' hpeek rfl
    refine ⟨[], stop, ?_, rfl⟩
    simp only [Chain.printMore, List.nil_append] at hskip
    simp only [alternativesOnto, hskip, hnone, List.append_nil]
  | cons t more ih =>
    obtain ⟨bound, rfl⟩ := Nat.exists_eq_succ_of_ne_zero (Nat.ne_zero_of_lt hbound)
    obtain ⟨stop, hskip⟩ := skipBlanks_to hc
    have hread := hbelow t (hmore t List.mem_cons_self)
    have hopens := (hread.starts.opens.append (Chain.printMore form more ++ tail)).stops
    have hmark : Text.isBlank '|' = false := by decide
    have htext : (Chain.printMore form (t :: more) ++ tail).dropWhile Text.isBlank =
        '|' :: ' ' :: (t.print form ++ (Chain.printMore form more ++ tail)) := by
      simp [Chain.printMore_cons, hmark]
    rw [htext] at hskip hc
    obtain ⟨t', after, hchain, hafter, hbare⟩ :=
      hread.reads (follows_printMore form htail more) (stop + '|'.utf8Size + 1)
    have hshort : (after.rest.dropWhile Text.isBlank).length < bound := by
      have hdrop := (List.dropWhile_sublist Text.isBlank
        (l := Chain.printMore form more ++ tail)).length_le
      rw [hc] at hbound
      rw [hafter]
      simp only [List.length_cons, List.length_append] at hbound hdrop
      omega
    obtain ⟨more', stop', hloop, hmap⟩ :=
      ih (fun u hu => hmore u (List.mem_cons_of_mem t hu)) (t' :: out) hshort hafter
    refine ⟨t' :: more', stop', ?_, by simp [hbare, hmap]⟩
    simp only [alternativesOnto, hskip, eat?_cons, if_true, skipBlanks_space hopens, hchain, hloop,
      bind, Except.bind]
    simp

theorem follows_defaultText (form : FloatForm) (d : Option Literal) {x : Char} (hx : x ∈ ['}', ','])
    (rest : List Char) : Follows (defaultText form d ++ x :: rest) ∧
      ∀ y ∈ ((defaultText form d ++ x :: rest).dropWhile Text.isBlank).head?, y ≠ '|' := by
  have hclose : x ∈ ['}', ',', ')'] ∧ Text.isBlank x = false ∧ x ≠ '|' := by
    simp only [List.mem_cons, List.not_mem_nil, or_false] at hx
    rcases hx with rfl | rfl <;> decide
  have hmark : Text.isBlank '?' = false := by decide
  cases d with
  | none => exact ⟨.close hclose.1, by simp [defaultText, hclose]⟩
  | some l => exact ⟨.mark (x := '?') (by decide), by simp [defaultText, hmark]⟩

theorem expr_reads (hbelow : ∀ t, P t → Readable form below t) {e : Expr} (he : e.Fits P) {x : Char}
    (hx : x ∈ ['}', ',']) (rest : List Char) :
    Reads (expr below) Expr.unplaced e (e.print form) (x :: rest) := by
  obtain ⟨alternatives, d, span⟩ := e
  obtain ⟨hne, halternatives, hdefault⟩ := he
  cases alternatives with
  | nil => exact absurd rfl hne
  | cons first more =>
    intro pos
    obtain ⟨hfollows, hbar⟩ := follows_defaultText form d hx rest
    obtain ⟨first', after, hfirst, hafter, hbare⟩ :=
      (hbelow first (halternatives first List.mem_cons_self)).reads
        (follows_printMore form hfollows more) pos
    have hshort : (after.rest.dropWhile Text.isBlank).length < after.rest.length + 1 :=
      Nat.lt_succ_of_le (List.dropWhile_sublist Text.isBlank).length_le
    obtain ⟨more', stop, hmore, hmap⟩ := alternativesOnto_reads hbelow hfollows hbar more
      (fun t ht => halternatives t (List.mem_cons_of_mem first ht)) [first'] hshort hafter
    have hx' : Text.isBlank x = false ∧ x ≠ '?' ∧ goesOn x = false := by
      simp only [List.mem_cons, List.not_mem_nil, or_false] at hx
      rcases hx with rfl | rfl <;> decide
    simp only [Expr.print, List.append_assoc, expr, hfirst, hmore, bind, Except.bind]
    cases d with
    | none =>
      have hskip : (defaultText form none ++ x :: rest).dropWhile Text.isBlank = x :: rest :=
        List.dropWhile_cons_of_neg (by simp [hx'])
      have hmark : defaultMark? ⟨stop, x :: rest⟩ = none := by simp [defaultMark?, eat?_cons, hx']
      simp only [hskip, hmark, pure, Except.pure]
      refine ⟨_, _, rfl, ?_⟩
      simp [Expr.unplaced, Chain.unplacedAll_eq, hbare, hmap]
    | some l =>
      have hblank : Text.isBlank '?' = false := by decide
      have hskip : (defaultText form (some l) ++ x :: rest).dropWhile Text.isBlank =
          '?' :: '?' :: ' ' :: (literalText form l.kind ++ x :: rest) := by
        simp [defaultText, hblank]
      have hrest : Stops goesOn (x :: rest) := stops_cons.mpr hx'.2.2
      have hwritten := hdefault l rfl
      have hopens := (literalText_opens form hwritten hrest).stops
      obtain ⟨span', stop', hliteral⟩ := defaultLiteral_reads form hwritten hrest
        (stop + '?'.utf8Size + '?'.utf8Size + 1)
      simp only [hskip, defaultMark?, eat?_cons, if_true, Option.bind_some,
        skipBlanks_space hopens, hliteral, pure, Except.pure]
      refine ⟨_, _, rfl, ?_⟩
      simp [Expr.unplaced, Chain.unplacedAll_eq, Literal.unplaced, hbare, hmap]

theorem expr_starts (hbelow : ∀ t, P t → Readable form below t) {e : Expr} (he : e.Fits P) :
    StartsChain (e.print form) := by
  obtain ⟨alternatives, d, span⟩ := e
  cases alternatives with
  | nil => exact absurd rfl he.1
  | cons first more =>
    rw [Expr.print, List.append_assoc]
    exact (hbelow first (he.2.1 first List.mem_cons_self)).starts.append _

theorem arg_opens (hbelow : ∀ t, P t → Readable form below t) {a : Arg} (ha : a.Fits P)
    {rest : List Char} (hrest : Stops goesOn rest) : Opens (a.print form ++ rest) := by
  cases a with
  | literal l => exact literalText_opens form ha.written.1 hrest
  | path t => exact (hbelow t ha.1).starts.opens.append rest

theorem arg_reads (hbelow : ∀ t, P t → Readable form below t) {a : Arg} (ha : a.Fits P)
    {rest : List Char} (hrest : Follows rest) :
    ReadsLoosely (arg below) Arg.unplaced a (a.print form) rest := by
  intro pos
  cases a with
  | literal l =>
    obtain ⟨hwritten, hparam⟩ := ha.written
    obtain ⟨kind, span⟩ := l
    rw [Arg.print]
    by_cases hbool : ∃ b, kind = .bool b
    · obtain ⟨b, rfl⟩ := hbool
      obtain ⟨hquote, hnumber⟩ := (startsChain_boolText b rest).notLiteral pos
      obtain ⟨stop, h⟩ := bool?_boolText b hrest.stops.name hrest.stops.path pos
      simp only [arg, literalText, hquote, hnumber, Bool.or_self, Bool.false_eq_true, if_false, h,
        pure, Except.pure]
      exact ⟨_, _, rfl, rfl, rfl⟩
    · obtain ⟨hat, -, -, span', stop, h⟩ := literal_reads form hwritten
        (fun b hb => hbool ⟨b, hb⟩) hparam hrest.stops pos
      simp only [arg, hat, if_true, h, bind, Except.bind, pure, Except.pure]
      exact ⟨_, _, rfl, rfl, rfl⟩
  | path t =>
    have hread := hbelow t ha.1
    obtain ⟨hquote, hnumber⟩ := (hread.starts.append rest).notLiteral pos
    obtain ⟨t', after, h, hafter, hbare⟩ := hread.reads hrest pos
    simp only [Arg.print, arg, hquote, hnumber, Bool.or_self, Bool.false_eq_true, if_false,
      hread.notBool ha.2 hrest pos, h, bind, Except.bind, pure, Except.pure]
    exact ⟨_, _, rfl, hafter, by rw [Arg.unplaced, hbare, Arg.unplaced]⟩

theorem follows_args (form : FloatForm) (more : List Arg) (rest : List Char) :
    Follows (Arg.printMore form more ++ rest) := by
  cases more with
  | nil => exact .close (x := ')') (by decide)
  | cons a more => exact .close (x := ',') (by decide)

theorem argsOnto_reads (hbelow : ∀ t, P t → Readable form below t) (a : Arg) (more : List Arg)
    (hfits : ∀ b ∈ a :: more, b.Fits P) (rest : List Char) {bound : Nat} (out : List Arg)
    (pos : Nat)
    (hbound : (a.print form ++ (Arg.printMore form more ++ rest)).length < bound) :
    ∃ as stop, argsOnto below bound out ⟨pos, a.print form ++ (Arg.printMore form more ++ rest)⟩ =
        .ok (out.reverse ++ as, ⟨stop, rest⟩) ∧
      as.map Arg.unplaced = (a :: more).map Arg.unplaced := by
  induction more generalizing a bound out pos with
  | nil =>
    obtain ⟨bound, rfl⟩ := Nat.exists_eq_succ_of_ne_zero (Nat.ne_zero_of_lt hbound)
    obtain ⟨a', after, harg, hafter, hbare⟩ :=
      arg_reads hbelow (hfits a List.mem_cons_self) (follows_args form [] rest) pos
    have hclose : Text.isBlank ')' = false := by decide
    obtain ⟨stop, hskip⟩ := skipBlanks_to hafter
    simp only [Arg.printMore, List.cons_append, List.nil_append, List.dropWhile_cons, hclose,
      Bool.false_eq_true, if_false] at hskip
    have hcomma : (')' : Char) ≠ ',' := by decide
    simp only [argsOnto, harg, hskip, eat?_cons, hcomma, if_false, if_true, bind, Except.bind, pure,
      Except.pure]
    exact ⟨[a'], _, by rw [List.reverse_cons], by simp [hbare]⟩
  | cons b more ih =>
    obtain ⟨bound, rfl⟩ := Nat.exists_eq_succ_of_ne_zero (Nat.ne_zero_of_lt hbound)
    obtain ⟨a', after, harg, hafter, hbare⟩ :=
      arg_reads hbelow (hfits a List.mem_cons_self) (follows_args form (b :: more) rest) pos
    have hcomma : Text.isBlank ',' = false := by decide
    have htext : (Arg.printMore form (b :: more) ++ rest).dropWhile Text.isBlank =
        ',' :: ' ' :: (b.print form ++ (Arg.printMore form more ++ rest)) := by
      simp [Arg.printMore_cons, hcomma]
    obtain ⟨stop, hskip⟩ := skipBlanks_to (hafter.trans htext)
    have hopens := (arg_opens hbelow (hfits b (by simp))
      (follows_args form more rest).stops).stops
    have hshort : (b.print form ++ (Arg.printMore form more ++ rest)).length < bound := by
      simp only [Arg.printMore_cons, List.length_append, List.length_cons] at hbound ⊢
      omega
    obtain ⟨as, stop', hloop, hmap⟩ := ih b (fun u hu => hfits u (List.mem_cons_of_mem a hu))
      (a' :: out) (stop + ','.utf8Size + 1) hshort
    simp only [argsOnto, harg, hskip, eat?_cons, if_true, skipBlanks_space hopens, hloop, bind,
      Except.bind]
    exact ⟨a' :: as, stop', by simp, by simp [hbare, hmap]⟩

def argsText (form : FloatForm) : List Arg → List Char
  | [] => [')']
  | a :: more => a.print form ++ Arg.printMore form more

theorem args_reads (hbelow : ∀ t, P t → Readable form below t) {as : List Arg}
    (hfits : ∀ a ∈ as, a.Fits P) (rest : List Char) :
    Reads (args below) (List.map Arg.unplaced) as (argsText form as) rest := by
  intro pos
  cases as with
  | nil =>
    have hclose : Stops Text.isBlank (')' :: rest) := stops_cons.mpr (by decide)
    simp only [argsText, List.cons_append, List.nil_append, args, skipBlanks_of_stops hclose,
      eat?_cons, if_true]
    exact ⟨_, _, rfl, rfl⟩
  | cons a more =>
    have hopens := arg_opens hbelow (hfits a List.mem_cons_self)
      (follows_args form more rest).stops
    obtain ⟨as', stop, hloop, hmap⟩ := argsOnto_reads hbelow a more hfits rest [] pos
      (Nat.lt_succ_self _)
    have hparen : eat? ⟨pos, a.print form ++ (Arg.printMore form more ++ rest)⟩ ')' = none := by
      obtain ⟨x, tail, hx, -, hne, -⟩ := hopens
      rw [hx, eat?_cons, if_neg hne]
    simp only [argsText, List.append_assoc, args, skipBlanks_of_stops hopens.stops, hparen, hloop]
    exact ⟨as', stop, by simp, hmap⟩

theorem joinItem_opens (hbelow : ∀ t, P t → Readable form below t) {i : JoinItem} (hi : i.Fits P)
    (rest : List Char) : Opens (i.print form ++ rest) := by
  cases i with
  | text s span => exact ⟨'"', _, rfl, by decide⟩
  | expr e => exact (expr_starts hbelow hi).opens.append rest

theorem joinItem_reads (hbelow : ∀ t, P t → Readable form below t) {i : JoinItem} (hi : i.Fits P)
    {x : Char} (hx : x ∈ ['}', ',']) (rest : List Char) :
    Reads (joinItem below) JoinItem.unplaced i (i.print form) (x :: rest) := by
  intro pos
  cases i with
  | text s span =>
    obtain ⟨stop, h⟩ := quoted_quotedText s (x :: rest) pos
    simp only [JoinItem.print, joinItem, atQuote_quotedText, if_true, h, bind, Except.bind, pure,
      Except.pure]
    exact ⟨_, _, rfl, rfl⟩
  | expr e =>
    have hstarts := (expr_starts hbelow hi).append (x :: rest)
    obtain ⟨hquote, -⟩ := hstarts.notLiteral pos
    have hat : atName ⟨pos, e.print form ++ x :: rest⟩ ∨
        peek ⟨pos, e.print form ++ x :: rest⟩ = some '[' := by
      obtain ⟨y, tail, hy, hstart⟩ := hstarts
      rw [hy]
      simpa [atName] using hstart
    obtain ⟨e', stop, h, hbare⟩ := expr_reads hbelow hi hx rest pos
    rw [JoinItem.print]
    simp only [joinItem, hquote, Bool.false_eq_true, if_false, Bool.or_eq_true, decide_eq_true_eq,
      hat, if_true, h, bind, Except.bind, pure, Except.pure]
    exact ⟨_, _, rfl, by rw [JoinItem.unplaced, hbare, JoinItem.unplaced]⟩

theorem joinItemsOnto_reads (hbelow : ∀ t, P t → Readable form below t) (i : JoinItem)
    (more : List JoinItem) (hfits : ∀ j ∈ i :: more, j.Fits P) (rest : List Char) {bound : Nat}
    (out : List JoinItem) {c : Cursor}
    (hc : c.rest.dropWhile Text.isBlank =
      i.print form ++ (JoinItem.printMore form more ++ rest))
    (hbound : (i.print form ++ (JoinItem.printMore form more ++ rest)).length < bound) :
    ∃ items stop, joinItemsOnto below bound out c = .ok (out.reverse ++ items, ⟨stop, rest⟩) ∧
      items.map JoinItem.unplaced = (i :: more).map JoinItem.unplaced := by
  induction more generalizing i bound out c with
  | nil =>
    obtain ⟨bound, rfl⟩ := Nat.exists_eq_succ_of_ne_zero (Nat.ne_zero_of_lt hbound)
    obtain ⟨start, hstart⟩ := skipBlanks_to hc
    obtain ⟨i', stop, hitem, hbare⟩ :=
      joinItem_reads hbelow (hfits i List.mem_cons_self) (x := '}') (by decide) rest start
    have hclose : Stops Text.isBlank ('}' :: rest) := stops_cons.mpr (by decide)
    have hcomma : ('}' : Char) ≠ ',' := by decide
    simp only [JoinItem.printMore, List.cons_append, List.nil_append] at hstart
    simp only [joinItemsOnto, hstart, hitem, skipBlanks_of_stops hclose, eat?_cons, hcomma,
      if_false, if_true, bind, Except.bind, pure, Except.pure]
    exact ⟨[i'], _, by rw [List.reverse_cons], by simp [hbare]⟩
  | cons j more ih =>
    obtain ⟨bound, rfl⟩ := Nat.exists_eq_succ_of_ne_zero (Nat.ne_zero_of_lt hbound)
    obtain ⟨start, hstart⟩ := skipBlanks_to hc
    obtain ⟨i', stop, hitem, hbare⟩ := joinItem_reads hbelow (hfits i List.mem_cons_self)
      (x := ',') (by decide) (' ' :: (j.print form ++ (JoinItem.printMore form more ++ rest))) start
    have hcomma : Stops Text.isBlank
        (',' :: ' ' :: (j.print form ++ (JoinItem.printMore form more ++ rest))) :=
      stops_cons.mpr (by decide)
    have hopens := joinItem_opens hbelow (hfits j (by simp)) (JoinItem.printMore form more ++ rest)
    have hnext : (' ' :: (j.print form ++ (JoinItem.printMore form more ++ rest))).dropWhile
        Text.isBlank = j.print form ++ (JoinItem.printMore form more ++ rest) := by
      rw [List.dropWhile_cons_of_pos isBlank_space, hopens.stops.dropWhile]
    have hshort : (j.print form ++ (JoinItem.printMore form more ++ rest)).length < bound := by
      simp only [JoinItem.printMore_cons, List.length_append, List.length_cons] at hbound ⊢
      omega
    obtain ⟨items, stop', hloop, hmap⟩ := ih j (fun u hu => hfits u (List.mem_cons_of_mem i hu))
      (i' :: out) (c := ⟨stop + ','.utf8Size, _⟩) hnext hshort
    simp only [JoinItem.printMore_cons, List.cons_append, List.append_assoc] at hstart
    simp only [joinItemsOnto, hstart, hitem, skipBlanks_of_stops hcomma, eat?_cons, if_true, hloop,
      bind, Except.bind]
    exact ⟨i' :: items, stop', by simp, by simp [hbare, hmap]⟩

/-- Goes on with a name or makes it a call. -/
def extendsName (x : Char) : Bool := isNameChar x || x = '('

theorem extendsName_of_goesOn {rest : List Char} (h : Stops goesOn rest) :
    Stops extendsName rest := by
  refine h.mono fun x hx => ?_
  simp only [extendsName, Bool.or_eq_true, decide_eq_true_eq] at hx
  rcases hx with hx | rfl
  · simp [goesOn, hx]
  · decide

theorem isNameChar_of_extendsName {rest : List Char} (h : Stops extendsName rest) :
    Stops isNameChar rest :=
  h.mono fun x hx => by simp [extendsName, hx]

theorem eat?_of_extendsName {rest : List Char} (h : Stops extendsName rest) (pos : Nat) :
    eat? ⟨pos, rest⟩ '(' = none := by
  rw [eat?, if_neg]
  intro hpeek
  have hopen := h '(' hpeek
  revert hopen
  decide

theorem startsChain_name {s : String} (hs : IsName s) : StartsChain s.toList := by
  obtain ⟨x, tail, hx, hstart⟩ := hs.cons
  exact ⟨x, tail, hx, .inl hstart⟩

theorem peek_name {s : String} (hs : IsName s) (rest : List Char) (pos : Nat) :
    peek ⟨pos, s.toList ++ rest⟩ ≠ some '[' ∧ peek ⟨pos, s.toList ++ rest⟩ ≠ some '{' := by
  obtain ⟨x, tail, hx, hstart⟩ := hs.cons
  rw [hx, List.cons_append, peek_cons]
  constructor
  · rintro ⟨⟩
    exact absurd hstart (by decide)
  · rintro ⟨⟩
    exact absurd hstart (by decide)

theorem head_reads (hbelow : ∀ t, P t → Readable form below t) {h : Head} (hfits : h.Fits P)
    {rest : List Char} (hrest : Stops extendsName rest) :
    Reads (head below) Head.unplaced h (h.print form) rest := by
  intro pos
  cases h with
  | name id =>
    obtain ⟨span, stop, hident⟩ := ident_name hfits (isNameChar_of_extendsName hrest)
      "field, method or function name" pos
    have hparen := eat?_of_extendsName hrest stop
    simp only [Head.print, head, (peek_name hfits rest pos).1, if_false, hident, hparen, bind,
      Except.bind, pure, Except.pure]
    exact ⟨_, _, rfl, rfl⟩
  | call id as =>
    obtain ⟨hname, hargs⟩ := hfits
    have htext : Head.print form (.call id as) = id.name.toList ++ '(' :: argsText form as := by
      cases as with
      | nil => rfl
      | cons a more => simp [Head.print, argsText]
    have hparen : Stops isNameChar ('(' :: (argsText form as ++ rest)) :=
      stops_cons.mpr (by decide)
    obtain ⟨span, stop, hident⟩ :=
      ident_name hname hparen "field, method or function name" pos
    obtain ⟨as', stop', hread, hbare⟩ := args_reads hbelow hargs rest (stop + '('.utf8Size)
    simp only [htext, List.append_assoc, List.cons_append, head, (peek_name hname _ pos).1,
      if_false, hident, eat?_cons, if_true, hread, bind, Except.bind, pure, Except.pure]
    exact ⟨_, _, rfl, by simp [Head.unplaced, Ident.unplaced, Arg.unplacedAll_eq, hbare]⟩
  | key id =>
    obtain ⟨span, stop, hkey⟩ := key_keyText hfits rest pos
    have hpeek : peek ⟨pos, keyText id.name ++ rest⟩ = some '[' := rfl
    simp only [Head.print, head, hpeek, if_true, hkey, bind, Except.bind, pure, Except.pure]
    exact ⟨_, _, rfl, rfl⟩

theorem step_first (form : FloatForm) (s : Step) :
    ∃ x tail, s.print form = x :: tail ∧ (x = '.' ∨ x = '[') := by
  cases s with
  | member id => exact ⟨'.', _, rfl, .inl rfl⟩
  | call id => exact ⟨'.', _, rfl, .inl rfl⟩
  | key id => exact ⟨'[', _, rfl, .inr rfl⟩
  | join items span =>
    cases items with
    | nil => exact ⟨'.', _, rfl, .inl rfl⟩
    | cons i more => exact ⟨'.', _, rfl, .inl rfl⟩

theorem step?_reads (hbelow : ∀ t, P t → Readable form below t) {s : Step} (hfits : s.Fits P)
    {rest : List Char} (hrest : Stops extendsName rest) (pos : Nat) :
    ∃ s' stop, step? below ⟨pos, s.print form ++ rest⟩ = some (.ok (s', ⟨stop, rest⟩)) ∧
      s'.unplaced = s.unplaced := by
  cases s with
  | member id =>
    obtain ⟨span, stop, hident⟩ := ident_name hfits (isNameChar_of_extendsName hrest)
      "member name after `.`" (pos + '.'.utf8Size)
    have hparen := eat?_of_extendsName hrest stop
    simp only [Step.print, List.cons_append, step?, peek_cons, next_cons, dotStep,
      (peek_name hfits rest _).2, if_false, hident, hparen, bind, Except.bind, pure, Except.pure]
    exact ⟨_, _, rfl, rfl⟩
  | call id =>
    have hopen : Stops isNameChar ('(' :: ')' :: rest) := stops_cons.mpr (by decide)
    have hclose : Stops Text.isBlank (')' :: rest) := stops_cons.mpr (by decide)
    obtain ⟨span, stop, hident⟩ :=
      ident_name hfits hopen "member name after `.`" (pos + '.'.utf8Size)
    simp only [Step.print, List.cons_append, List.append_assoc, List.nil_append, step?, peek_cons,
      next_cons, dotStep, (peek_name hfits _ _).2, if_false, hident, eat?_cons, if_true,
      skipBlanks_of_stops hclose, bind, Except.bind, pure, Except.pure]
    exact ⟨_, _, rfl, rfl⟩
  | key id =>
    obtain ⟨span, stop, hkey⟩ := key_keyText hfits rest pos
    have hpeek : peek ⟨pos, keyText id.name ++ rest⟩ = some '[' := rfl
    simp only [Step.print, step?, hpeek, hkey, bind, Except.bind, pure, Except.pure]
    exact ⟨_, _, rfl, rfl⟩
  | join items span =>
    obtain ⟨hne, hitems⟩ := hfits
    cases items with
    | nil => exact absurd rfl hne
    | cons i more =>
      have htext : Step.print form (.join (i :: more) span) ++ rest =
          '.' :: '{' :: (i.print form ++ (JoinItem.printMore form more ++ rest)) := by
        simp [Step.print]
      have hskip := (joinItem_opens hbelow (hitems i List.mem_cons_self)
        (JoinItem.printMore form more ++ rest)).stops.dropWhile
      obtain ⟨items', stop, hloop, hmap⟩ := joinItemsOnto_reads hbelow i more hitems rest []
        (c := ⟨pos + '.'.utf8Size + '{'.utf8Size, _⟩) hskip
        (Nat.lt_succ_of_lt (Nat.lt_succ_self _))
      simp only [htext, step?, peek_cons, next_cons, dotStep, if_true, List.length_cons, hloop,
        bind, Except.bind, pure, Except.pure]
      refine ⟨_, _, rfl, ?_⟩
      simp only [Step.unplaced, JoinItem.unplacedAll_eq, List.reverse_nil, List.nil_append, hmap]

theorem step?_none {rest : List Char} (h : Stops continuesPath rest) (pos : Nat) :
    step? below ⟨pos, rest⟩ = none := by
  cases rest with
  | nil => rfl
  | cons x rest =>
    have hx := stops_cons.mp h
    simp only [continuesPath, Bool.or_eq_false_iff, decide_eq_false_iff_not] at hx
    obtain ⟨⟨hdot, -⟩, hbracket⟩ := hx
    simp only [step?, peek_cons]
    split
    next heq => exact absurd (Option.some.inj heq) hdot
    next heq => exact absurd (Option.some.inj heq) hbracket
    next => rfl

theorem steps_extendsName (form : FloatForm) (steps : List Step) {rest : List Char}
    (hrest : Stops goesOn rest) : Stops extendsName (Step.printAll form steps ++ rest) := by
  cases steps with
  | nil => exact extendsName_of_goesOn hrest
  | cons s steps =>
    obtain ⟨x, tail, hs, hx⟩ := step_first form s
    rw [Step.printAll, hs, List.cons_append, List.cons_append, stops_cons]
    rcases hx with rfl | rfl <;> decide

theorem isJoin_unplaced (s : Step) : s.unplaced.isJoin = s.isJoin := by
  cases s <;> rfl

theorem stepsOnto_reads (hbelow : ∀ t, P t → Readable form below t) (steps : List Step)
    (hfits : ∀ s ∈ steps, s.Fits P) (hjoin : ∀ s ∈ steps.dropLast, s.isJoin = false)
    {rest : List Char} (hrest : Stops goesOn rest) {bound : Nat} (out : List Step)
    (hout : steps ≠ [] → out.head?.any Step.isJoin = false) (pos : Nat)
    (hbound : (Step.printAll form steps ++ rest).length < bound) :
    ∃ steps' stop, stepsOnto below bound out ⟨pos, Step.printAll form steps ++ rest⟩ =
        .ok (out.reverse ++ steps', ⟨stop, rest⟩) ∧
      steps'.map Step.unplaced = steps.map Step.unplaced := by
  induction steps generalizing bound out pos with
  | nil =>
    obtain ⟨bound, rfl⟩ := Nat.exists_eq_succ_of_ne_zero (Nat.ne_zero_of_lt hbound)
    simp only [Step.printAll, List.nil_append, stepsOnto, step?_none hrest.path]
    exact ⟨[], pos, by rw [List.append_nil], rfl⟩
  | cons s steps ih =>
    obtain ⟨bound, rfl⟩ := Nat.exists_eq_succ_of_ne_zero (Nat.ne_zero_of_lt hbound)
    obtain ⟨s', stop, hstep, hbare⟩ := step?_reads hbelow (hfits s List.mem_cons_self)
      (steps_extendsName form steps hrest) pos
    -- A join is the last step, so what is read now is none if more follows.
    have hnext : steps ≠ [] → (s' :: out).head?.any Step.isJoin = false := by
      intro hne
      have hs := hjoin s (by rw [List.dropLast_cons_of_ne_nil hne]; exact List.mem_cons_self)
      rw [← isJoin_unplaced, ← hbare, isJoin_unplaced] at hs
      exact hs
    have hshort : (Step.printAll form steps ++ rest).length < bound := by
      obtain ⟨x, tail, hs, -⟩ := step_first form s
      simp only [Step.printAll, hs, List.length_append, List.length_cons] at hbound ⊢
      omega
    have hmore : ∀ u ∈ steps.dropLast, u.isJoin = false := by
      intro u hu
      have hne : steps ≠ [] := by
        rintro rfl
        simp at hu
      exact hjoin u (by rw [List.dropLast_cons_of_ne_nil hne]; exact List.mem_cons_of_mem s hu)
    obtain ⟨steps', stop', hloop, hmap⟩ := ih (fun u hu => hfits u (List.mem_cons_of_mem s hu))
      hmore (s' :: out) hnext stop hshort
    simp only [Step.printAll, List.append_assoc, stepsOnto, hstep, hout (by simp),
      Bool.false_eq_true, if_false, hloop, bind, Except.bind]
    exact ⟨s' :: steps', stop', by simp, by simp [hbare, hmap]⟩

theorem arithmetic_reads (form : FloatForm) {a : Option Arithmetic}
    (ha : ∀ a' ∈ a, IsNumeral a'.operand) {joined : Bool} (hjoined : joined → a = none)
    {rest : List Char} (hrest : Stops isNumberChar rest)
    (hskip : ∀ x ∈ (rest.dropWhile Text.isBlank).head?, Operator.ofSymbol? x = none) (pos : Nat) :
    ∃ a' after, arithmetic joined (skipBlanks ⟨pos, arithmeticText form a ++ rest⟩) =
        .ok (a', after) ∧
      after.rest.dropWhile Text.isBlank = rest.dropWhile Text.isBlank ∧
      a'.map Arithmetic.unplaced = a.map Arithmetic.unplaced := by
  cases a with
  | none =>
    obtain ⟨stop, hstart⟩ := skipBlanks_to (c := ⟨pos, rest⟩) rfl
    have hnone : (rest.dropWhile Text.isBlank).head?.bind Operator.ofSymbol? = none := by
      cases hx : (rest.dropWhile Text.isBlank).head? with
      | none => rfl
      | some x => exact hskip x hx
    simp only [arithmeticText, List.nil_append, hstart, arithmetic, peek, hnone]
    exact ⟨_, _, rfl, (stops_dropWhile _ _).dropWhile, rfl⟩
  | some a =>
    have hop : ∀ op : Operator, Text.isBlank op.symbol = false ∧
        Operator.ofSymbol? op.symbol = some op := by
      intro op
      cases op <;> decide
    have hfirst : Stops Text.isBlank (a.op.symbol :: ' ' :: (operandText form a.operand ++ rest)) :=
      stops_cons.mpr (hop a.op).1
    have hnumeral := ha a rfl
    have hopens : Stops Text.isBlank (operandText form a.operand ++ rest) := by
      obtain ⟨-, x, tail, hx, hblank, -⟩ := atNumber_operandText form hnumeral hrest 0
      rw [hx]
      exact stops_cons.mpr hblank
    obtain ⟨stop, h⟩ := number_operandText form hnumeral hrest (pos + 1 + a.op.symbol.utf8Size + 1)
    have hfree : joined = false := by
      cases joined with
      | false => rfl
      | true => cases hjoined rfl
    simp only [arithmeticText, List.cons_append, skipBlanks_space hfirst, arithmetic, peek_cons,
      Option.bind_some, (hop a.op).2, next_cons, skipBlanks_space hopens, h, hfree,
      Bool.false_eq_true, if_false, bind, Except.bind, pure, Except.pure]
    exact ⟨_, _, rfl, rfl, rfl⟩

theorem castTarget?_isName {s : String} {t : Ty} (h : castTarget? s = some t) : IsName s := by
  unfold castTarget? at h
  split at h
  all_goals cases h
  all_goals exact ⟨by decide, List.all_eq_true.mp (by decide)⟩

theorem conversion_reads {v : Option Conversion}
    (hv : ∀ v' ∈ v, castTarget? v'.target.text = some v'.target) {joined : Bool}
    (hjoined : joined → v = none) {rest : List Char} (hrest : Follows rest) {c : Cursor}
    (hc : c.rest.dropWhile Text.isBlank = (conversionText v ++ rest).dropWhile Text.isBlank) :
    ∃ v' after, conversion joined c.skipBlanks = .ok (v', after) ∧
      after.rest.dropWhile Text.isBlank = rest.dropWhile Text.isBlank ∧
      v'.map Conversion.unplaced = v.map Conversion.unplaced := by
  have has : ∀ x ∈ "as".toList, isNameChar x := List.all_eq_true.mp (by decide)
  obtain ⟨start, hstart⟩ := skipBlanks_to hc
  cases v with
  | none =>
    obtain ⟨x, tail, hx, -, -, hname⟩ := hrest.skip
    have hword : word? ⟨start, x :: tail⟩ "as" = none := by
      rw [word?_eq has, if_neg]
      rw [List.takeWhile_cons_of_neg (by simp [hname])]
      decide
    simp only [conversionText, List.nil_append, hx] at hstart
    simp only [hstart, conversion, hword]
    exact ⟨_, _, rfl, by rw [← hx, (stops_dropWhile _ _).dropWhile], rfl⟩
  | some v =>
    have htarget := hv v rfl
    have hname := castTarget?_isName htarget
    have hfirst : Text.isBlank 'a' = false := by decide
    have htext : (conversionText (some v) ++ rest).dropWhile Text.isBlank =
        'a' :: 's' :: ' ' :: (v.target.text.toList ++ rest) := by
      simp [conversionText, hfirst]
    rw [htext] at hstart
    have hrun : ('a' :: 's' :: ' ' :: (v.target.text.toList ++ rest)).takeWhile isNameChar =
        "as".toList := by
      have hchars : isNameChar 'a' ∧ isNameChar 's' ∧ isNameChar ' ' = false := by decide
      simp [hchars]
    obtain ⟨hword, -⟩ :=
      word?_advance (c := ⟨start, 'a' :: 's' :: ' ' :: (v.target.text.toList ++ rest)⟩) has hrun
    have hopens := (hname.opens.append rest).stops
    obtain ⟨span, stop, hident⟩ := ident_name hname hrest.stops.name "cast target type"
      (start + 'a'.utf8Size + 's'.utf8Size + 1)
    have hfree : joined = false := by
      cases joined with
      | false => rfl
      | true => cases hjoined rfl
    have hlength : "as".length = 2 := rfl
    simp only [hstart, conversion, hword, hlength, advance, next_cons, skipBlanks_space hopens,
      hident, htarget, hfree, Bool.false_eq_true, if_false, bind, Except.bind, pure, Except.pure]
    exact ⟨_, _, rfl, rfl, rfl⟩

theorem conversion_stops (v : Option Conversion) {rest : List Char} (hrest : Follows rest) :
    Stops goesOn (conversionText v ++ rest) ∧
      ∀ x ∈ ((conversionText v ++ rest).dropWhile Text.isBlank).head?,
        Operator.ofSymbol? x = none := by
  cases v with
  | none =>
    refine ⟨hrest.stops, ?_⟩
    obtain ⟨x, tail, hx, -, hop, -⟩ := hrest.skip
    simp [conversionText, hx, hop]
  | some v =>
    have hspace : goesOn ' ' = false := by decide
    have hfirst : Text.isBlank 'a' = false ∧ Operator.ofSymbol? 'a' = none := by decide
    exact ⟨stops_cons.mpr hspace, by simp [conversionText, hfirst]⟩

theorem arithmetic_stops (form : FloatForm) (a : Option Arithmetic) {rest : List Char}
    (hrest : Stops goesOn rest) : Stops goesOn (arithmeticText form a ++ rest) := by
  cases a with
  | none => exact hrest
  | some a => exact stops_cons.mpr (by decide)

theorem joined_unplaced {steps steps' : List Step}
    (h : steps'.map Step.unplaced = steps.map Step.unplaced) :
    steps'.getLast?.any Step.isJoin = steps.getLast?.any Step.isJoin := by
  have hbare : ∀ ss : List Step,
      (ss.map Step.unplaced).getLast?.any Step.isJoin = ss.getLast?.any Step.isJoin := by
    intro ss
    rw [List.getLast?_map, Option.any_map]
    congr 1
    funext s
    exact isJoin_unplaced s
  rw [← hbare, h, hbare]

theorem chainLevel_reads (hbelow : ∀ t, P t → Readable form below t) {t : Chain}
    (ht : t.FitsOver P) {rest : List Char} (hrest : Follows rest) :
    ReadsLoosely (chainLevel below) Chain.unplaced t (t.print form) rest := by
  obtain ⟨hd, steps, a, v, span⟩ := t
  obtain ⟨hhead, hsteps, hlast, hend, hnumeral, htarget⟩ := ht
  obtain ⟨hstops, hop⟩ := conversion_stops v hrest
  have hbehind := arithmetic_stops form a hstops
  intro pos
  obtain ⟨hd', c₁, hread₁, hbare₁⟩ :=
    head_reads hbelow (h := hd) hhead (steps_extendsName form steps hbehind) pos
  obtain ⟨steps', c₂, hread₂, hbare₂⟩ := stepsOnto_reads hbelow steps hsteps hlast hbehind []
    (fun _ => rfl) c₁ (Nat.lt_succ_self _)
  rw [List.reverse_nil, List.nil_append] at hread₂
  have hfree : steps'.getLast?.any Step.isJoin → a = none ∧ v = none := by
    rw [joined_unplaced hbare₂]
    exact hend
  obtain ⟨a', after₃, hread₃, hafter₃, hbare₃⟩ := arithmetic_reads form (a := a) hnumeral
    (fun h => (hfree h).1) hstops.number hop c₂
  obtain ⟨v', after₄, hread₄, hafter₄, hbare₄⟩ := conversion_reads (v := v) htarget
    (fun h => (hfree h).2) hrest hafter₃
  simp only [Chain.print, List.append_assoc, chainLevel, hread₁, hread₂, hread₃, hread₄, bind,
    Except.bind, pure, Except.pure]
  refine ⟨_, _, rfl, hafter₄, ?_⟩
  simp only [Chain.unplaced, Step.unplacedAll_eq, hbare₁, hbare₂, hbare₃, hbare₄]

theorem head_starts (form : FloatForm) {h : Head} (hfits : h.Fits P) :
    StartsChain (h.print form) := by
  cases h with
  | name id => exact startsChain_name hfits
  | call id as =>
    cases as with
    | nil => exact (startsChain_name hfits.1).append _
    | cons a more =>
      rw [Head.print, List.append_assoc]
      exact (startsChain_name hfits.1).append _
  | key id => exact ⟨'[', _, rfl, .inr rfl⟩

theorem bool?_of_path {s : String} (hs : IsName s) {rest : List Char}
    (hrest : Stops isNameChar rest)
    (hgoes : ∀ b, s.toList = boolText b → rest.head?.any continuesPath) (pos : Nat) :
    bool? ⟨pos, s.toList ++ rest⟩ = none := by
  have hrun : (s.toList ++ rest).takeWhile isNameChar = s.toList := by
    rw [takeWhile_append_of_stops hrest, List.takeWhile_eq_self_iff.mpr hs.all]
  have hbehind : (s.toList ++ rest).dropWhile isNameChar = rest := by
    rw [dropWhile_append_of_stops hrest, List.dropWhile_eq_nil_iff.mpr hs.all, List.nil_append]
  by_cases hbool : ∃ b, s.toList = boolText b
  · obtain ⟨b, hb⟩ := hbool
    rw [bool?_of_run (c := ⟨pos, s.toList ++ rest⟩) (hrun.trans hb), hbehind, if_pos (hgoes b hb)]
  · refine bool?_of_other fun b hb => hbool ⟨b, ?_⟩
    exact hrun.symm.trans hb

theorem chainLevel_notBool {t : Chain} (ht : t.FitsOver P) (hpath : t.IsPath) {rest : List Char}
    (hrest : Follows rest) (pos : Nat) : bool? ⟨pos, t.print form ++ rest⟩ = none := by
  obtain ⟨hd, steps, a, v, span⟩ := t
  have hhead := ht.head
  have hbehind := arithmetic_stops form a (conversion_stops v hrest).1
  simp only [Chain.print, List.append_assoc]
  cases hd with
  | name id =>
    have hname := isNameChar_of_extendsName (steps_extendsName form steps hbehind)
    refine bool?_of_path hhead hname ?_ pos
    intro b hb
    cases steps with
    | nil => exact absurd rfl (hpath id b rfl hb)
    | cons s steps =>
      obtain ⟨x, tail, hs, hx⟩ := step_first form s
      rw [Step.printAll, hs]
      rcases hx with rfl | rfl <;> rfl
  | call id as =>
    have hparen : ∀ tail, Stops isNameChar ('(' :: tail) := fun tail => stops_cons.mpr (by decide)
    cases as with
    | nil =>
      simp only [Head.print, List.append_assoc]
      exact bool?_of_path hhead.1 (hparen _) (fun _ _ => rfl) pos
    | cons a more =>
      simp only [Head.print, List.append_assoc, List.cons_append]
      exact bool?_of_path hhead.1 (hparen _) (fun _ _ => rfl) pos
  | key id => exact bool?_of_first (by decide) _ pos

theorem chainLevel_readable (hbelow : ∀ t, P t → Readable form below t) {t : Chain}
    (ht : t.FitsOver P) : Readable form (chainLevel below) t where
  starts := by
    obtain ⟨hd, steps, a, v, span⟩ := t
    simp only [Chain.print, List.append_assoc]
    exact (head_starts form ht.head).append _
  notBool hpath _ hrest pos := chainLevel_notBool ht hpath hrest pos
  reads hrest := chainLevel_reads hbelow ht hrest

/-- Every chain that nests within the limit is read back. -/
theorem chain_readable (form : FloatForm) (limit levels : Nat) :
    ∀ t, Chain.Within levels t → Readable form (Parser.chain limit levels) t := by
  induction levels with
  | zero =>
    intro t ht
    exact ht.elim
  | succ levels ih =>
    intro t ht
    exact chainLevel_readable ih ht

end Parser

end PathTemplate.Template
