import PathTemplate.Proofs.Template.Advancing

namespace PathTemplate

/-- A span moved on by some bytes, as far as spans record offsets. -/
def Span.shifted (n : Nat) (s : Span) : Span := .ofRange (s.start + n) (s.stop + n)

theorem Span.shifted_ofRange (n start stop : Nat) :
    (Span.ofRange start stop).shifted n = .ofRange (start + n) (stop + n) := by
  simp only [shifted, ofRange, mk.injEq]
  omega

def Ident.shifted (n : Nat) (id : Ident) : Ident := { id with span := id.span.shifted n }

def Literal.shifted (n : Nat) (l : Literal) : Literal := { l with span := l.span.shifted n }

def Arithmetic.shifted (n : Nat) (a : Arithmetic) : Arithmetic :=
  { a with span := a.span.shifted n }

def Conversion.shifted (n : Nat) (c : Conversion) : Conversion :=
  { c with span := c.span.shifted n }

mutual

def Expr.shifted (n : Nat) : Expr → Expr
  | .mk alternatives default span =>
    .mk (Chain.shiftedAll n alternatives) (default.map (Literal.shifted n)) (span.shifted n)

def Chain.shifted (n : Nat) : Chain → Chain
  | .mk head steps arithmetic conversion span =>
    .mk (head.shifted n) (Step.shiftedAll n steps) (arithmetic.map (Arithmetic.shifted n))
      (conversion.map (Conversion.shifted n)) (span.shifted n)

def Chain.shiftedAll (n : Nat) : List Chain → List Chain
  | [] => []
  | c :: rest => c.shifted n :: Chain.shiftedAll n rest

def Head.shifted (n : Nat) : Head → Head
  | .name id => .name (id.shifted n)
  | .call name args => .call (name.shifted n) (Arg.shiftedAll n args)
  | .key id => .key (id.shifted n)

def Step.shifted (n : Nat) : Step → Step
  | .member id => .member (id.shifted n)
  | .call id => .call (id.shifted n)
  | .key id => .key (id.shifted n)
  | .join items span => .join (JoinItem.shiftedAll n items) (span.shifted n)

def Step.shiftedAll (n : Nat) : List Step → List Step
  | [] => []
  | s :: rest => s.shifted n :: Step.shiftedAll n rest

def JoinItem.shifted (n : Nat) : JoinItem → JoinItem
  | .text s span => .text s (span.shifted n)
  | .expr e => .expr (e.shifted n)

def JoinItem.shiftedAll (n : Nat) : List JoinItem → List JoinItem
  | [] => []
  | i :: rest => i.shifted n :: JoinItem.shiftedAll n rest

def Arg.shifted (n : Nat) : Arg → Arg
  | .literal l => .literal (l.shifted n)
  | .path c => .path (c.shifted n)

def Arg.shiftedAll (n : Nat) : List Arg → List Arg
  | [] => []
  | a :: rest => a.shifted n :: Arg.shiftedAll n rest

end

def Segment.shifted (n : Nat) : Segment → Segment
  | .text s span => .text s (span.shifted n)
  | .expr e => .expr (e.shifted n)

theorem Chain.shiftedAll_eq (n : Nat) (cs : List Chain) :
    Chain.shiftedAll n cs = cs.map (Chain.shifted n) := by
  induction cs with
  | nil => rfl
  | cons c cs ih => rw [Chain.shiftedAll, ih, List.map_cons]

theorem Step.shiftedAll_eq (n : Nat) (ss : List Step) :
    Step.shiftedAll n ss = ss.map (Step.shifted n) := by
  induction ss with
  | nil => rfl
  | cons s ss ih => rw [Step.shiftedAll, ih, List.map_cons]

theorem JoinItem.shiftedAll_eq (n : Nat) (is : List JoinItem) :
    JoinItem.shiftedAll n is = is.map (JoinItem.shifted n) := by
  induction is with
  | nil => rfl
  | cons i is ih => rw [JoinItem.shiftedAll, ih, List.map_cons]

theorem Arg.shiftedAll_eq (n : Nat) (as : List Arg) :
    Arg.shiftedAll n as = as.map (Arg.shifted n) := by
  induction as with
  | nil => rfl
  | cons a as ih => rw [Arg.shiftedAll, ih, List.map_cons]

mutual

theorem Expr.unplaced_shifted (n : Nat) : (e : Expr) → (e.shifted n).unplaced = e.unplaced
  | .mk cs default span => by
    cases default <;>
      simp only [Expr.shifted, Expr.unplaced, Chain.unplacedAll_shifted n cs] <;> rfl

theorem Chain.unplaced_shifted (n : Nat) : (c : Chain) → (c.shifted n).unplaced = c.unplaced
  | .mk head steps arithmetic conversion span => by
    cases arithmetic <;> cases conversion <;>
      simp only [Chain.shifted, Chain.unplaced, Head.unplaced_shifted n head,
        Step.unplacedAll_shifted n steps] <;> rfl

theorem Chain.unplacedAll_shifted (n : Nat) :
    (cs : List Chain) → Chain.unplacedAll (Chain.shiftedAll n cs) = Chain.unplacedAll cs
  | [] => rfl
  | c :: rest => by
    simp only [Chain.shiftedAll, Chain.unplacedAll, Chain.unplaced_shifted n c,
      Chain.unplacedAll_shifted n rest]

theorem Head.unplaced_shifted (n : Nat) : (h : Head) → (h.shifted n).unplaced = h.unplaced
  | .name _ => rfl
  | .key _ => rfl
  | .call name args => by
    simp only [Head.shifted, Head.unplaced, Arg.unplacedAll_shifted n args]
    rfl

theorem Step.unplaced_shifted (n : Nat) : (s : Step) → (s.shifted n).unplaced = s.unplaced
  | .member _ => rfl
  | .call _ => rfl
  | .key _ => rfl
  | .join items span => by
    simp only [Step.shifted, Step.unplaced, JoinItem.unplacedAll_shifted n items]

theorem Step.unplacedAll_shifted (n : Nat) :
    (ss : List Step) → Step.unplacedAll (Step.shiftedAll n ss) = Step.unplacedAll ss
  | [] => rfl
  | s :: rest => by
    simp only [Step.shiftedAll, Step.unplacedAll, Step.unplaced_shifted n s,
      Step.unplacedAll_shifted n rest]

theorem JoinItem.unplaced_shifted (n : Nat) : (i : JoinItem) → (i.shifted n).unplaced = i.unplaced
  | .text _ _ => rfl
  | .expr e => by simp only [JoinItem.shifted, JoinItem.unplaced, Expr.unplaced_shifted n e]

theorem JoinItem.unplacedAll_shifted (n : Nat) :
    (is : List JoinItem) →
      JoinItem.unplacedAll (JoinItem.shiftedAll n is) = JoinItem.unplacedAll is
  | [] => rfl
  | i :: rest => by
    simp only [JoinItem.shiftedAll, JoinItem.unplacedAll, JoinItem.unplaced_shifted n i,
      JoinItem.unplacedAll_shifted n rest]

theorem Arg.unplaced_shifted (n : Nat) : (a : Arg) → (a.shifted n).unplaced = a.unplaced
  | .literal _ => rfl
  | .path c => by simp only [Arg.shifted, Arg.unplaced, Chain.unplaced_shifted n c]

theorem Arg.unplacedAll_shifted (n : Nat) :
    (as : List Arg) → Arg.unplacedAll (Arg.shiftedAll n as) = Arg.unplacedAll as
  | [] => rfl
  | a :: rest => by
    simp only [Arg.shiftedAll, Arg.unplacedAll, Arg.unplaced_shifted n a,
      Arg.unplacedAll_shifted n rest]

end

theorem Segment.unplaced_shifted (n : Nat) (s : Segment) : (s.shifted n).unplaced = s.unplaced := by
  cases s with
  | text => rfl
  | expr e => simp only [Segment.shifted, Segment.unplaced, e.unplaced_shifted n]

theorem Step.isJoin_shifted (n : Nat) (s : Step) : (s.shifted n).isJoin = s.isJoin := by
  cases s <;> rfl

namespace Template

def ParseError.shifted (n : Nat) (e : ParseError) : ParseError := ⟨e.kind, e.span.shifted n⟩

/-- The same text, some bytes further on. -/
def Cursor.shifted (n : Nat) (c : Cursor) : Cursor := ⟨c.pos + n, c.rest⟩

def shiftOutcome {α : Type} (n : Nat) (f : α → α) :
    Except ParseError (α × Cursor) → Except ParseError (α × Cursor)
  | .ok (a, after) => .ok (f a, after.shifted n)
  | .error e => .error (e.shifted n)

theorem shiftOutcome_bind {α β : Type} {n : Nat} {f : α → α} {g : β → β}
    {x y : Except ParseError (α × Cursor)} {k k' : α × Cursor → Except ParseError (β × Cursor)}
    (hx : y = shiftOutcome n f x)
    (hk : ∀ a after, k' (f a, after.shifted n) = shiftOutcome n g (k (a, after))) :
    (y >>= k') = shiftOutcome n g (x >>= k) := by
  subst hx
  match x with
  | .ok (a, after) => exact hk a after
  | .error e => rfl

namespace Cursor

variable (n : Nat) (c : Cursor)

@[simp] theorem shifted_pos : (c.shifted n).pos = c.pos + n := rfl

@[simp] theorem shifted_rest : (c.shifted n).rest = c.rest := rfl

@[simp] theorem peek_shifted : (c.shifted n).peek = c.peek := rfl

theorem spanFrom_shifted (start : Nat) :
    (c.shifted n).spanFrom (start + n) = (c.spanFrom start).shifted n :=
  (Span.shifted_ofRange n start c.pos).symm

theorem next_shifted : (c.shifted n).next = c.next.shifted n := by
  obtain ⟨pos, rest⟩ := c
  cases rest with
  | nil => rfl
  | cons x rest => simp only [shifted, next, Nat.add_right_comm]

theorem here_shifted : (c.shifted n).here = c.here.shifted n := by
  rw [here, here, next_shifted, Span.shifted_ofRange]
  rfl

theorem expected_shifted {α : Type} (f : α → α) (what : String) :
    (c.shifted n).expected what = shiftOutcome n f (c.expected what) := by
  rw [expected, here_shifted]
  rfl

theorem eat?_shifted (x : Char) : (c.shifted n).eat? x = (c.eat? x).map (shifted n) := by
  simp only [eat?, peek_shifted, next_shifted]
  split <;> rfl

theorem takeWhile_shifted (p : Char → Bool) :
    (c.shifted n).takeWhile p = ((c.takeWhile p).1, (c.takeWhile p).2.shifted n) := by
  simp only [takeWhile, shifted, Nat.add_right_comm]

theorem skipBlanks_shifted : (c.shifted n).skipBlanks = c.skipBlanks.shifted n := by
  rw [skipBlanks, takeWhile_shifted]
  rfl

theorem advance_shifted (m : Nat) : (c.shifted n).advance m = (c.advance m).shifted n := by
  induction m generalizing c with
  | zero => rfl
  | succ m ih => rw [advance, next_shifted, ih, advance]

theorem ident?_shifted : (c.shifted n).ident? =
    c.ident?.map fun r => (r.1.shifted n, r.2.shifted n) := by
  simp only [ident?, takeWhile_shifted, shifted_pos, spanFrom_shifted]
  rw [apply_ite (Option.map _)]
  rfl

theorem ident_shifted (what : String) :
    (c.shifted n).ident what = shiftOutcome n (Ident.shifted n) (c.ident what) := by
  simp only [ident, ident?_shifted]
  cases c.ident? with
  | some r => rfl
  | none => exact c.expected_shifted n _ what

theorem word?_shifted (w : String) : (c.shifted n).word? w = (c.word? w).map (shifted n) := by
  simp only [word?, advance_shifted, shifted_rest, peek_shifted]
  split
  · split <;> rfl
  · rfl

theorem bool?_shifted : (c.shifted n).bool? = c.bool?.map fun r => (r.1, r.2.shifted n) := by
  have halone : ∀ (b : Bool) (after : Cursor), aloneBefore b (after.shifted n) =
      (aloneBefore b after).map fun r => (r.1, r.2.shifted n) := by
    intro b after
    simp only [aloneBefore_eq, peek_shifted]
    rw [apply_ite (Option.map _)]
    rfl
  simp only [bool?, word?_shifted]
  cases c.word? "true" with
  | some after => exact halone true after
  | none =>
    cases c.word? "false" with
    | some after => exact halone false after
    | none => rfl

theorem quotedOnto_shifted (quote : Char) (pos : Nat) (out cs : List Char) :
    quotedOnto quote (pos + n) out cs =
      match quotedOnto quote pos out cs with
      | .ok (s, after) => .ok (s, after.shifted n)
      | .error stop => .error (stop + n) := by
  fun_induction quotedOnto quote pos out cs with
  | case1 pos out => rfl
  | case2 pos out rest pos' =>
    rw [quotedOnto.eq_def]
    dsimp only
    rw [if_pos rfl, Nat.add_right_comm]
    rfl
  | case3 pos out pos' hne =>
    rw [quotedOnto.eq_def]
    dsimp only
    rw [if_neg hne, if_pos rfl, Nat.add_right_comm]
  | case4 pos out y rest pos' hne ih =>
    rw [quotedOnto.eq_def]
    dsimp only
    rw [if_neg hne, if_pos rfl]
    simpa only [pos', Nat.add_right_comm _ n] using ih
  | case5 pos out x rest pos' hne hne' ih =>
    rw [quotedOnto.eq_def]
    dsimp only
    rw [if_neg hne, if_neg hne']
    simpa only [pos', Nat.add_right_comm _ n] using ih

theorem quoted_shifted : (c.shifted n).quoted = shiftOutcome n id c.quoted := by
  simp only [quoted, peek_shifted, next_shifted, shifted_pos, shifted_rest, quotedOnto_shifted]
  cases quotedOnto (c.peek.getD '"') c.next.pos [] c.next.rest with
  | ok r => rfl
  | error stop =>
    dsimp only
    rw [← Span.shifted_ofRange]
    rfl

theorem sign_shifted : (c.shifted n).sign = (c.sign.1, c.sign.2.shifted n) := by
  simp only [sign, peek_shifted, next_shifted]
  split <;> rfl

theorem fraction?_shifted : (c.shifted n).fraction? =
    c.fraction?.map fun r => (r.1, r.2.shifted n) := by
  unfold fraction?
  rw [next_shifted, takeWhile_shifted, apply_ite (Option.map _)]
  rfl

theorem exponent?_shifted : (c.shifted n).exponent? =
    c.exponent?.map fun r => (r.1, r.2.1, r.2.2.shifted n) := by
  simp only [exponent?, peek_shifted, next_shifted, sign_shifted, takeWhile_shifted]
  rw [apply_ite (Option.map _)]
  rfl

theorem scanNumber_shifted :
    (c.shifted n).scanNumber = (c.scanNumber.1, c.scanNumber.2.shifted n) := by
  have hplaces : ∀ c : Cursor, ((c.shifted n).fraction?).getD ([], c.shifted n) =
      ((c.fraction?.getD ([], c)).1, (c.fraction?.getD ([], c)).2.shifted n) := by
    intro c
    rw [fraction?_shifted]
    cases c.fraction? <;> rfl
  have hsome : ∀ c : Cursor, (c.shifted n).fraction?.isSome = c.fraction?.isSome := by
    intro c
    rw [fraction?_shifted, Option.isSome_map]
  simp only [scanNumber, sign_shifted, takeWhile_shifted, hplaces, hsome, exponent?_shifted]
  cases ((c.sign.2.takeWhile Char.isDigit).2.fraction?.getD
    ([], (c.sign.2.takeWhile Char.isDigit).2)).2.exponent? <;> rfl

theorem number_shifted : (c.shifted n).number = shiftOutcome n id c.number := by
  simp only [number_eq, scanNumber_shifted, shifted_pos, shifted_rest, spanFrom_shifted]
  have hat : (c.shifted n).atNumber = c.atNumber := rfl
  rw [hat]
  split
  · exact c.expected_shifted n _ _
  · cases c.scanNumber.1 <;> rfl

theorem literal_shifted : (c.shifted n).literal = shiftOutcome n (Literal.shifted n) c.literal := by
  have hat : (c.shifted n).atQuote = c.atQuote := rfl
  simp only [literal, hat, shifted_pos]
  split
  · refine shiftOutcome_bind (c.quoted_shifted n) fun s after => ?_
    simp only [spanFrom_shifted]
    rfl
  · refine shiftOutcome_bind (c.number_shifted n) fun m after => ?_
    simp only [spanFrom_shifted]
    rfl

theorem defaultLiteral_shifted :
    (c.shifted n).defaultLiteral = shiftOutcome n (Literal.shifted n) c.defaultLiteral := by
  have hquote : (c.shifted n).atQuote = c.atQuote := rfl
  have hnumber : (c.shifted n).atNumber = c.atNumber := rfl
  simp only [defaultLiteral, eat?_shifted, bool?_shifted, hquote, hnumber, shifted_pos]
  cases c.eat? '$' with
  | some name =>
    refine shiftOutcome_bind (name.ident_shifted n _) fun id after => ?_
    simp only [spanFrom_shifted]
    rfl
  | none =>
    cases c.bool? with
    | some r =>
      simp only [Option.map_none, Option.map_some, spanFrom_shifted]
      rfl
    | none =>
      simp only [Option.map_none]
      split
      · exact c.literal_shifted n
      · exact c.expected_shifted n _ _

theorem keyBefore_shifted (start : Nat) (name : String) :
    keyBefore (start + n) name (c.shifted n) =
      shiftOutcome n (Ident.shifted n) (keyBefore start name c) := by
  have hend : (c.shifted n).atEnd = c.atEnd := rfl
  simp only [keyBefore, eat?_shifted, hend]
  cases c.eat? ']' with
  | some close =>
    simp only [Option.map_some, spanFrom_shifted]
    split <;> rfl
  | none =>
    simp only [Option.map_none, spanFrom_shifted]
    split
    · rfl
    · exact c.expected_shifted n _ _

theorem key_shifted : (c.shifted n).key = shiftOutcome n (Ident.shifted n) c.key := by
  have hat : (c.next.skipBlanks.shifted n).atQuote = c.next.skipBlanks.atQuote := rfl
  simp only [key, next_shifted, skipBlanks_shifted, hat, shifted_pos]
  split
  · refine shiftOutcome_bind (c.next.skipBlanks.quoted_shifted n) fun name after => ?_
    simp only [skipBlanks_shifted]
    exact after.skipBlanks.keyBefore_shifted n c.pos name
  · simp only [takeWhile_shifted]
    exact (c.next.skipBlanks.takeWhile _).2.keyBefore_shifted n c.pos _

end Cursor

/-- The reader gives the same some bytes further on. -/
def Shifts {α : Type} (n : Nat) (f : α → α) (reader : Reader α) : Prop :=
  ∀ c, reader (c.shifted n) = shiftOutcome n f (reader c)

namespace Parser

open Cursor

variable {n : Nat} {chain : Reader Chain} (hchain : Shifts n (Chain.shifted n) chain)

section Levels

include hchain

theorem alternativesOnto_shifts (bound : Nat) (out : List Chain) (c : Cursor) :
    alternativesOnto chain bound (out.map (Chain.shifted n)) (c.shifted n) =
      shiftOutcome n (List.map (Chain.shifted n)) (alternativesOnto chain bound out c) := by
  induction bound generalizing out c with
  | zero =>
    rw [alternativesOnto, alternativesOnto, ← List.map_reverse]
    rfl
  | succ bound ih =>
    simp only [alternativesOnto, skipBlanks_shifted, eat?_shifted]
    cases c.skipBlanks.eat? '|' with
    | some after =>
      simp only [Option.map_some, skipBlanks_shifted]
      exact shiftOutcome_bind (hchain _) fun t after => ih (t :: out) after
    | none =>
      rw [← List.map_reverse]
      rfl

omit hchain in
theorem defaultMark?_shifted (n : Nat) (c : Cursor) :
    defaultMark? (c.shifted n) = (defaultMark? c).map (Cursor.shifted n) := by
  simp only [defaultMark?, eat?_shifted]
  cases c.eat? '?' with
  | some after => exact after.eat?_shifted n '?'
  | none => rfl

theorem expr_shifts : Shifts n (Expr.shifted n) (expr chain) := by
  intro c
  unfold expr
  refine shiftOutcome_bind (hchain c) fun first after => ?_
  refine shiftOutcome_bind (alternativesOnto_shifts hchain _ [first] after) fun cs after => ?_
  simp only [defaultMark?_shifted, shifted_pos]
  cases defaultMark? after with
  | some mark =>
    simp only [Option.map_some, skipBlanks_shifted]
    refine shiftOutcome_bind (mark.skipBlanks.defaultLiteral_shifted n) fun l after => ?_
    simp only [spanFrom_shifted, ← Chain.shiftedAll_eq]
    rfl
  | none =>
    simp only [Option.map_none, spanFrom_shifted, ← Chain.shiftedAll_eq]
    rfl

theorem arg_shifts : Shifts n (Arg.shifted n) (arg chain) := by
  intro c
  have hquote : (c.shifted n).atQuote = c.atQuote := rfl
  have hnumber : (c.shifted n).atNumber = c.atNumber := rfl
  simp only [arg, hquote, hnumber, bool?_shifted, shifted_pos]
  split
  · exact shiftOutcome_bind (c.literal_shifted n) fun l after => rfl
  · cases c.bool? with
    | some r =>
      simp only [Option.map_some, spanFrom_shifted]
      rfl
    | none => exact shiftOutcome_bind (hchain c) fun t after => rfl

theorem argsOnto_shifts (bound : Nat) (out : List Arg) (c : Cursor) :
    argsOnto chain bound (out.map (Arg.shifted n)) (c.shifted n) =
      shiftOutcome n (List.map (Arg.shifted n)) (argsOnto chain bound out c) := by
  induction bound generalizing out c with
  | zero => exact c.expected_shifted n _ _
  | succ bound ih =>
    unfold argsOnto
    refine shiftOutcome_bind (arg_shifts hchain c) fun a after => ?_
    simp only [skipBlanks_shifted, eat?_shifted]
    cases after.skipBlanks.eat? ',' with
    | some comma =>
      simp only [Option.map_some, skipBlanks_shifted]
      exact ih (a :: out) comma.skipBlanks
    | none =>
      cases after.skipBlanks.eat? ')' with
      | some close =>
        simp only [Option.map_none, Option.map_some, ← List.map_cons, ← List.map_reverse]
        rfl
      | none => exact after.skipBlanks.expected_shifted n _ _

theorem args_shifts : Shifts n (List.map (Arg.shifted n)) (args chain) := by
  intro c
  simp only [args, skipBlanks_shifted, eat?_shifted]
  cases c.skipBlanks.eat? ')' with
  | some after => rfl
  | none => exact argsOnto_shifts hchain _ [] c.skipBlanks

theorem joinItem_shifts : Shifts n (JoinItem.shifted n) (joinItem chain) := by
  intro c
  have hquote : (c.shifted n).atQuote = c.atQuote := rfl
  have hpath : ((c.shifted n).atName || (c.shifted n).peek = some '[') =
      (c.atName || c.peek = some '[') := rfl
  unfold joinItem
  rw [hquote, hpath, shifted_pos]
  by_cases hq : c.atQuote = true
  · rw [if_pos hq, if_pos hq]
    refine shiftOutcome_bind (c.quoted_shifted n) fun s after => ?_
    simp only [spanFrom_shifted]
    rfl
  · rw [if_neg hq, if_neg hq]
    split
    · exact shiftOutcome_bind (expr_shifts hchain c) fun e after => rfl
    · exact c.expected_shifted n _ _

theorem joinItemsOnto_shifts (bound : Nat) (out : List JoinItem) (c : Cursor) :
    joinItemsOnto chain bound (out.map (JoinItem.shifted n)) (c.shifted n) =
      shiftOutcome n (List.map (JoinItem.shifted n)) (joinItemsOnto chain bound out c) := by
  induction bound generalizing out c with
  | zero => exact c.expected_shifted n _ _
  | succ bound ih =>
    simp only [joinItemsOnto, skipBlanks_shifted]
    refine shiftOutcome_bind (joinItem_shifts hchain c.skipBlanks) fun i after => ?_
    simp only [skipBlanks_shifted, eat?_shifted]
    cases after.skipBlanks.eat? ',' with
    | some comma => exact ih (i :: out) comma
    | none =>
      cases after.skipBlanks.eat? '}' with
      | some close =>
        simp only [Option.map_none, Option.map_some, ← List.map_cons, ← List.map_reverse]
        rfl
      | none => exact after.skipBlanks.expected_shifted n _ _

theorem head_shifts : Shifts n (Head.shifted n) (head chain) := by
  intro c
  unfold head
  by_cases hkey : c.peek = some '['
  · rw [if_pos hkey, if_pos (show (c.shifted n).peek = some '[' from hkey)]
    exact shiftOutcome_bind (c.key_shifted n) fun k after => rfl
  · rw [if_neg hkey, if_neg (show ¬(c.shifted n).peek = some '[' from hkey)]
    refine shiftOutcome_bind (c.ident_shifted n _) fun id after => ?_
    simp only [eat?_shifted]
    cases after.eat? '(' with
    | some inside =>
      refine shiftOutcome_bind (args_shifts hchain inside) fun as after => ?_
      simp only [← Arg.shiftedAll_eq]
      rfl
    | none => rfl

theorem dotStep_shifts (start : Nat) (c : Cursor) :
    dotStep chain (start + n) (c.shifted n) =
      shiftOutcome n (Step.shifted n) (dotStep chain start c) := by
  simp only [dotStep, peek_shifted, next_shifted, shifted_rest]
  split
  · refine shiftOutcome_bind (joinItemsOnto_shifts hchain _ [] c.next) fun items after => ?_
    simp only [spanFrom_shifted, ← JoinItem.shiftedAll_eq]
    rfl
  · refine shiftOutcome_bind (c.ident_shifted n _) fun id after => ?_
    simp only [eat?_shifted]
    cases after.eat? '(' with
    | some inside =>
      simp only [Option.map_some, skipBlanks_shifted, eat?_shifted]
      cases inside.skipBlanks.eat? ')' with
      | some close => rfl
      | none => exact inside.skipBlanks.expected_shifted n _ _
    | none => rfl

theorem step?_shifts (c : Cursor) :
    step? chain (c.shifted n) = (step? chain c).map (shiftOutcome n (Step.shifted n)) := by
  simp only [step?, peek_shifted, next_shifted, shifted_pos]
  split
  · rw [dotStep_shifts hchain]
    rfl
  · exact congrArg some (shiftOutcome_bind (c.key_shifted n) fun k after => rfl)
  · rfl

theorem stepsOnto_shifts (bound : Nat) (out : List Step) (c : Cursor) :
    stepsOnto chain bound (out.map (Step.shifted n)) (c.shifted n) =
      shiftOutcome n (List.map (Step.shifted n)) (stepsOnto chain bound out c) := by
  induction bound generalizing out c with
  | zero =>
    rw [stepsOnto, stepsOnto, ← List.map_reverse]
    rfl
  | succ bound ih =>
    have hjoin : (out.map (Step.shifted n)).head?.any Step.isJoin = out.head?.any Step.isJoin := by
      cases out with
      | nil => rfl
      | cons s out => exact s.isJoin_shifted n
    simp only [stepsOnto, step?_shifts hchain, hjoin]
    cases step? chain c with
    | none =>
      simp only [Option.map_none, ← List.map_reverse]
      rfl
    | some step =>
      refine shiftOutcome_bind rfl fun s after => ?_
      simp only [shifted_pos, spanFrom_shifted]
      split
      · rfl
      · exact ih (s :: out) after

end Levels

theorem arithmetic_shifts (n : Nat) (joined : Bool) :
    Shifts n (Option.map (Arithmetic.shifted n)) (arithmetic joined) := by
  intro c
  simp only [arithmetic, peek_shifted, next_shifted, skipBlanks_shifted, shifted_pos]
  split
  · rfl
  · refine shiftOutcome_bind (c.next.skipBlanks.number_shifted n) fun m after => ?_
    simp only [spanFrom_shifted]
    split <;> rfl

theorem conversion_shifts (n : Nat) (joined : Bool) :
    Shifts n (Option.map (Conversion.shifted n)) (conversion joined) := by
  intro c
  simp only [conversion, word?_shifted, shifted_pos]
  cases c.word? "as" with
  | none => rfl
  | some word =>
    simp only [Option.map_some, skipBlanks_shifted]
    refine shiftOutcome_bind (word.skipBlanks.ident_shifted n _) fun id after => ?_
    have hname : (id.shifted n).name = id.name := rfl
    simp only [hname, spanFrom_shifted]
    cases castTarget? id.name with
    | none => rfl
    | some ty => cases joined <;> rfl

theorem chainLevel_shifts (hchain : Shifts n (Chain.shifted n) chain) :
    Shifts n (Chain.shifted n) (chainLevel chain) := by
  intro c
  unfold chainLevel
  refine shiftOutcome_bind (head_shifts hchain c) fun hd after => ?_
  refine shiftOutcome_bind (stepsOnto_shifts hchain _ [] after) fun steps after => ?_
  have hjoin : (steps.map (Step.shifted n)).getLast?.any Step.isJoin =
      steps.getLast?.any Step.isJoin := by
    rw [List.getLast?_map]
    cases steps.getLast? with
    | none => rfl
    | some s => exact s.isJoin_shifted n
  simp only [hjoin, skipBlanks_shifted]
  refine shiftOutcome_bind (arithmetic_shifts n _ after.skipBlanks) fun a after => ?_
  simp only [skipBlanks_shifted]
  refine shiftOutcome_bind (conversion_shifts n _ after.skipBlanks) fun v after => ?_
  simp only [shifted_pos, spanFrom_shifted, ← Step.shiftedAll_eq]
  rfl

theorem chain_shifts (n limit levels : Nat) :
    Shifts n (Chain.shifted n) (Parser.chain limit levels) := by
  induction levels with
  | zero =>
    intro c
    simp only [Parser.chain, here_shifted]
    rfl
  | succ levels ih => exact chainLevel_shifts ih

theorem expression_shifts (hchain : Shifts n (Chain.shifted n) chain) (start : Nat) (c : Cursor) :
    expression chain (start + n) (c.shifted n) =
      shiftOutcome n (Expr.shifted n) (expression chain start c) := by
  have hend : ∀ c : Cursor, (c.shifted n).atEnd = c.atEnd := fun _ => rfl
  simp only [expression, skipBlanks_shifted, hend, eat?_shifted, spanFrom_shifted]
  split
  · rfl
  · cases c.skipBlanks.eat? '}' with
    | some close =>
      simp only [Option.map_some, spanFrom_shifted]
      rfl
    | none =>
      refine shiftOutcome_bind (expr_shifts hchain c.skipBlanks) fun e after => ?_
      simp only [skipBlanks_shifted, eat?_shifted, hend, spanFrom_shifted]
      cases after.skipBlanks.eat? '}' with
      | some close => rfl
      | none =>
        simp only [Option.map_none]
        split
        · rfl
        · exact after.skipBlanks.expected_shifted n _ _

end Parser

end Template

end PathTemplate
