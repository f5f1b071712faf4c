import PathTemplate.Proofs.Outcome
import PathTemplate.Template.Parser

namespace PathTemplate.Template

namespace Cursor

variable {c after : Cursor} {l : Literal}

@[simp] theorem fail_ne_ok {α : Type} (kind : ParseErrorKind) (span : Span) (a : α) :
    fail kind span ≠ .ok a := by
  simp [fail]

@[simp] theorem expected_ne_ok {α : Type} (c : Cursor) (what : String) (a : α) :
    c.expected what ≠ .ok a :=
  fail_ne_ok _ _ a

theorem literal_eq_ok : c.literal = .ok (l, after) ↔
    (c.atQuote ∧ ∃ s, c.quoted = .ok (s, after) ∧ ⟨.string s, after.spanFrom c.pos⟩ = l) ∨
    (c.atQuote = false ∧ ∃ n, c.number = .ok (n, after) ∧
      ⟨.number n, after.spanFrom c.pos⟩ = l) := by
  unfold literal
  cases hat : c.atQuote <;>
    simp only [bind_eq_ok, pure_eq_ok, Prod.exists, Prod.mk.injEq, exists_eq_right_right,
      Bool.false_eq_true, if_false, if_true, true_and, false_and, reduceCtorEq, or_false, false_or]

theorem defaultLiteral_eq_ok : c.defaultLiteral = .ok (l, after) ↔
    (∃ name, c.eat? '$' = some name ∧ ∃ id,
      name.ident "parameter name after `$`" = .ok (id, after) ∧
      ⟨.param id.name, after.spanFrom c.pos⟩ = l) ∨
    (c.eat? '$' = none ∧ ∃ b, c.bool? = some (b, after) ∧
      ⟨.bool b, after.spanFrom c.pos⟩ = l) ∨
    (c.eat? '$' = none ∧ c.bool? = none ∧ (c.atQuote || c.atNumber) ∧
      c.literal = .ok (l, after)) := by
  unfold defaultLiteral
  cases hname : c.eat? '$' with
  | some name =>
    simp only [bind_eq_ok, pure_eq_ok, Prod.exists, Prod.mk.injEq, exists_eq_right_right,
      Option.some.injEq, reduceCtorEq, false_and, or_false, exists_eq_left']
  | none =>
    rcases hbool : c.bool? with _ | ⟨b, c'⟩
    · cases hat : c.atQuote || c.atNumber <;> simp
    · simp only [pure_eq_ok, Prod.mk.injEq, Option.some.injEq, reduceCtorEq, false_and, or_false,
        exists_false, false_or, true_and, and_assoc, exists_eq_left']
      constructor
      · rintro ⟨rfl, rfl⟩
        exact ⟨rfl, rfl⟩
      · rintro ⟨rfl, rfl⟩
        exact ⟨rfl, rfl⟩

def keyBefore (start : Nat) (name : String) (c : Cursor) : Except ParseError (Ident × Cursor) :=
  match c.eat? ']' with
  | some close =>
    if name.isEmpty then fail (.expected "map key" "`]`") (close.spanFrom start)
    else return (⟨name, close.spanFrom start⟩, close)
  | none =>
    if c.atEnd then fail .unterminatedKey (c.spanFrom start)
    else c.expected "`]`"

theorem keyBefore_eq_ok {start : Nat} {name : String} {id : Ident} :
    keyBefore start name c = .ok (id, after) ↔
      c.eat? ']' = some after ∧ name ≠ "" ∧ ⟨name, after.spanFrom start⟩ = id := by
  unfold keyBefore
  cases hclose : c.eat? ']' with
  | none =>
    dsimp only
    split <;> simp
  | some close =>
    by_cases hname : name = ""
    · simp [hname]
    · simp only [String.isEmpty_iff, hname, if_false, pure_eq_ok, Prod.mk.injEq, Option.some.injEq,
        ne_eq, not_false_eq_true, true_and]
      constructor
      · rintro ⟨rfl, rfl⟩
        exact ⟨rfl, rfl⟩
      · rintro ⟨rfl, rfl⟩
        exact ⟨rfl, rfl⟩

theorem key_eq_ok {id : Ident} : c.key = .ok (id, after) ↔
    (c.next.skipBlanks.atQuote ∧ ∃ name c', c.next.skipBlanks.quoted = .ok (name, c') ∧
      keyBefore c.pos name c'.skipBlanks = .ok (id, after)) ∨
    (c.next.skipBlanks.atQuote = false ∧
      keyBefore c.pos (Text.trim (String.ofList (c.next.skipBlanks.takeWhile (· ≠ ']')).1))
        (c.next.skipBlanks.takeWhile (· ≠ ']')).2 = .ok (id, after)) := by
  unfold key
  dsimp only
  cases hat : c.next.skipBlanks.atQuote with
  | true =>
    simp only [if_true, bind_eq_ok, pure_eq_ok, Prod.exists, true_and, exists_eq_left',
      reduceCtorEq, false_and, or_false]
    rfl
  | false =>
    simp only [Bool.false_eq_true, if_false, pure_eq_ok, bind_eq_ok, exists_eq_left', false_and,
      true_and, false_or]
    rfl

end Cursor

namespace Parser

open Cursor

variable {chain : Reader Chain} {c after : Cursor}

theorem alternativesOnto_eq_ok {bound : Nat} {out cs : List Chain} :
    alternativesOnto chain (bound + 1) out c = .ok (cs, after) ↔
      (∃ bar, c.skipBlanks.eat? '|' = some bar ∧ ∃ t c', chain bar.skipBlanks = .ok (t, c') ∧
        alternativesOnto chain bound (t :: out) c' = .ok (cs, after)) ∨
      (c.skipBlanks.eat? '|' = none ∧ out.reverse = cs ∧ c.skipBlanks = after) := by
  rw [alternativesOnto]
  cases c.skipBlanks.eat? '|' <;>
    simp only [bind_eq_ok, Prod.exists, Option.some.injEq, exists_eq_left', reduceCtorEq,
      false_and, exists_false, true_and, or_false, false_or, Except.ok.injEq, Prod.mk.injEq]

theorem expr_eq_ok {e : Expr} : expr chain c = .ok (e, after) ↔
    ∃ first c₁, chain c = .ok (first, c₁) ∧
      ∃ cs c₂, alternativesOnto chain (c₁.rest.length + 1) [first] c₁ = .ok (cs, c₂) ∧
        ((∃ mark, defaultMark? c₂ = some mark ∧
            ∃ l, mark.skipBlanks.defaultLiteral = .ok (l, after) ∧
              .mk cs (some l) (after.spanFrom c.pos) = e) ∨
          (defaultMark? c₂ = none ∧ .mk cs none (c₂.spanFrom c.pos) = e ∧ c₂ = after)) := by
  unfold expr
  simp only [bind_eq_ok, Prod.exists]
  refine exists_congr fun first => exists_congr fun c₁ => and_congr_right fun _ =>
    exists_congr fun cs => exists_congr fun c₂ => and_congr_right fun _ => ?_
  cases hmark : defaultMark? c₂ <;>
    simp only [bind_eq_ok, pure_eq_ok, Prod.exists, Prod.mk.injEq, exists_eq_right_right,
      Option.some.injEq, exists_eq_left', reduceCtorEq, false_and, exists_false, true_and, or_false,
      false_or]

theorem arg_eq_ok {a : Arg} : arg chain c = .ok (a, after) ↔
    ((c.atQuote || c.atNumber) ∧ ∃ l, c.literal = .ok (l, after) ∧ .literal l = a) ∨
    ((c.atQuote || c.atNumber) = false ∧ ∃ b, c.bool? = some (b, after) ∧
      .literal ⟨.bool b, after.spanFrom c.pos⟩ = a) ∨
    ((c.atQuote || c.atNumber) = false ∧ c.bool? = none ∧ ∃ t, chain c = .ok (t, after) ∧
      .path t = a) := by
  unfold arg
  cases hat : c.atQuote || c.atNumber with
  | true =>
    simp only [bind_eq_ok, pure_eq_ok, Prod.exists, Prod.mk.injEq, exists_eq_right_right, if_true,
      true_and, reduceCtorEq, false_and, or_false]
  | false =>
    rcases hbool : c.bool? with _ | ⟨b, c'⟩
    · simp only [bind_eq_ok, pure_eq_ok, Prod.exists, Prod.mk.injEq, exists_eq_right_right,
        Bool.false_eq_true, if_false, true_and, reduceCtorEq, false_and, exists_false, false_or]
    · simp only [pure_eq_ok, Prod.mk.injEq, Option.some.injEq, Bool.false_eq_true, if_false,
        true_and, reduceCtorEq, false_and, false_or, or_false, and_assoc, exists_eq_left']
      constructor
      · rintro ⟨rfl, rfl⟩
        exact ⟨rfl, rfl⟩
      · rintro ⟨rfl, rfl⟩
        exact ⟨rfl, rfl⟩

theorem argsOnto_eq_ok {bound : Nat} {out as : List Arg} :
    argsOnto chain (bound + 1) out c = .ok (as, after) ↔ ∃ a c', arg chain c = .ok (a, c') ∧
      ((∃ comma, c'.skipBlanks.eat? ',' = some comma ∧
          argsOnto chain bound (a :: out) comma.skipBlanks = .ok (as, after)) ∨
        (c'.skipBlanks.eat? ',' = none ∧ c'.skipBlanks.eat? ')' = some after ∧
          (a :: out).reverse = as)) := by
  rw [argsOnto]
  simp only [bind_eq_ok, Prod.exists]
  refine exists_congr fun a => exists_congr fun c' => and_congr_right fun _ => ?_
  cases hcomma : c'.skipBlanks.eat? ',' with
  | some comma =>
    simp only [Option.some.injEq, exists_eq_left', reduceCtorEq, false_and, or_false]
  | none =>
    cases hclose : c'.skipBlanks.eat? ')' <;>
      simp [pure_eq_ok, and_comm]

theorem args_eq_ok {as : List Arg} : args chain c = .ok (as, after) ↔
    (c.skipBlanks.eat? ')' = some after ∧ [] = as) ∨
    (c.skipBlanks.eat? ')' = none ∧
      argsOnto chain (c.skipBlanks.rest.length + 1) [] c.skipBlanks = .ok (as, after)) := by
  unfold args
  cases hclose : c.skipBlanks.eat? ')' <;> simp [hclose, and_comm]

theorem joinItem_eq_ok {i : JoinItem} : joinItem chain c = .ok (i, after) ↔
    (c.atQuote ∧ ∃ s, c.quoted = .ok (s, after) ∧ .text s (after.spanFrom c.pos) = i) ∨
    (c.atQuote = false ∧ (c.atName ∨ c.peek = some '[') ∧ ∃ e, expr chain c = .ok (e, after) ∧
      .expr e = i) := by
  unfold joinItem
  cases hat : c.atQuote with
  | true =>
    simp only [bind_eq_ok, pure_eq_ok, Prod.exists, Prod.mk.injEq, exists_eq_right_right, if_true,
      true_and, reduceCtorEq, false_and, or_false]
  | false =>
    simp only [Bool.false_eq_true, if_false, false_and, false_or, true_and]
    split
    next hpath =>
      simp only [Bool.or_eq_true, decide_eq_true_eq] at hpath
      simp only [bind_eq_ok, pure_eq_ok, Prod.exists, Prod.mk.injEq, exists_eq_right_right, hpath,
        true_and]
    next hpath =>
      simp only [Bool.or_eq_true, decide_eq_true_eq] at hpath
      simp [hpath]

theorem joinItemsOnto_eq_ok {bound : Nat} {out items : List JoinItem} :
    joinItemsOnto chain (bound + 1) out c = .ok (items, after) ↔
      ∃ i c', joinItem chain c.skipBlanks = .ok (i, c') ∧
        ((∃ comma, c'.skipBlanks.eat? ',' = some comma ∧
            joinItemsOnto chain bound (i :: out) comma = .ok (items, after)) ∨
          (c'.skipBlanks.eat? ',' = none ∧ c'.skipBlanks.eat? '}' = some after ∧
            (i :: out).reverse = items)) := by
  rw [joinItemsOnto]
  simp only [bind_eq_ok, Prod.exists]
  refine exists_congr fun i => exists_congr fun c' => and_congr_right fun _ => ?_
  cases hcomma : c'.skipBlanks.eat? ',' with
  | some comma => simp only [Option.some.injEq, exists_eq_left', reduceCtorEq, false_and, or_false]
  | none => cases hclose : c'.skipBlanks.eat? '}' <;> simp [pure_eq_ok, and_comm]

theorem head_eq_ok {hd : Head} : head chain c = .ok (hd, after) ↔
    (c.peek = some '[' ∧ ∃ k, c.key = .ok (k, after) ∧ .key k = hd) ∨
    (c.peek ≠ some '[' ∧ ∃ id c', c.ident "field, method or function name" = .ok (id, c') ∧
      ((∃ inside, c'.eat? '(' = some inside ∧ ∃ as, args chain inside = .ok (as, after) ∧
          .call id as = hd) ∨
        (c'.eat? '(' = none ∧ .name id = hd ∧ c' = after))) := by
  unfold head
  by_cases hkey : c.peek = some '['
  · simp only [hkey, if_true, bind_eq_ok, pure_eq_ok, Prod.exists, Prod.mk.injEq,
      exists_eq_right_right, true_and, ne_eq, not_true_eq_false, false_and, or_false]
  · simp only [hkey, if_false, bind_eq_ok, Prod.exists, ne_eq, not_false_eq_true, true_and,
      false_and, false_or]
    refine exists_congr fun id => exists_congr fun c' => and_congr_right fun _ => ?_
    cases hparen : c'.eat? '(' <;>
      simp only [bind_eq_ok, pure_eq_ok, Prod.exists, Prod.mk.injEq, exists_eq_right_right,
        Option.some.injEq, exists_eq_left', reduceCtorEq, false_and, exists_false, true_and,
        or_false, false_or]

theorem dotStep_eq_ok {start : Nat} {s : Step} : dotStep chain start c = .ok (s, after) ↔
    (c.peek = some '{' ∧ ∃ items, joinItemsOnto chain (c.rest.length + 1) [] c.next =
      .ok (items, after) ∧ .join items (after.spanFrom start) = s) ∨
    (c.peek ≠ some '{' ∧ ∃ id c', c.ident "member name after `.`" = .ok (id, c') ∧
      ((∃ inside, c'.eat? '(' = some inside ∧ inside.skipBlanks.eat? ')' = some after ∧
          .call id = s) ∨
        (c'.eat? '(' = none ∧ .member id = s ∧ c' = after))) := by
  unfold dotStep
  by_cases hjoin : c.peek = some '{'
  · simp only [hjoin, if_true, bind_eq_ok, pure_eq_ok, Prod.exists, Prod.mk.injEq,
      exists_eq_right_right, true_and, ne_eq, not_true_eq_false, false_and, or_false]
  · simp only [hjoin, if_false, bind_eq_ok, Prod.exists, ne_eq, not_false_eq_true, true_and,
      false_and, false_or]
    refine exists_congr fun id => exists_congr fun c' => and_congr_right fun _ => ?_
    cases hparen : c'.eat? '(' with
    | none => simp [pure_eq_ok]
    | some inside =>
      cases hclose : inside.skipBlanks.eat? ')' <;>
        simp [pure_eq_ok, hclose, and_comm]

theorem step?_eq_none : step? chain c = none ↔ c.peek ≠ some '.' ∧ c.peek ≠ some '[' := by
  unfold step?
  split <;> simp_all

theorem step?_eq_ok {s : Step} : step? chain c = some (.ok (s, after)) ↔
    (c.peek = some '.' ∧ dotStep chain c.pos c.next = .ok (s, after)) ∨
    (c.peek = some '[' ∧ ∃ k, c.key = .ok (k, after) ∧ .key k = s) := by
  unfold step?
  split
  next hdot => simp [hdot]
  next hbracket =>
    simp only [hbracket, Option.some.injEq, bind_eq_ok, pure_eq_ok, Prod.exists, Prod.mk.injEq,
      exists_eq_right_right, true_and, Char.reduceEq, false_and, false_or]
  next hdot hbracket =>
    simp [show ¬c.peek = some '.' from hdot, show ¬c.peek = some '[' from hbracket]

theorem stepsOnto_eq_ok {bound : Nat} {out steps : List Step} :
    stepsOnto chain (bound + 1) out c = .ok (steps, after) ↔
      (step? chain c = none ∧ out.reverse = steps ∧ c = after) ∨
      ∃ s c', step? chain c = some (.ok (s, c')) ∧ out.head?.any Step.isJoin = false ∧
        stepsOnto chain bound (s :: out) c' = .ok (steps, after) := by
  rw [stepsOnto]
  rcases hstep : step? chain c with _ | step
  · simp
  · simp only [bind_eq_ok, Prod.exists, reduceCtorEq, false_and, false_or, Option.some.injEq]
    refine exists_congr fun s => exists_congr fun c' => and_congr_right fun _ => ?_
    cases hlast : out.head?.any Step.isJoin <;> simp

theorem arithmetic_eq_ok {joined : Bool} {a : Option Arithmetic} :
    arithmetic joined c = .ok (a, after) ↔
      (c.peek.bind Operator.ofSymbol? = none ∧ none = a ∧ c = after) ∨
      ∃ op, c.peek.bind Operator.ofSymbol? = some op ∧
        ∃ n, c.next.skipBlanks.number = .ok (n, after) ∧ joined = false ∧
          some ⟨op, n, after.spanFrom c.pos⟩ = a := by
  unfold arithmetic
  cases hop : c.peek.bind Operator.ofSymbol? with
  | none => simp
  | some op =>
    cases joined <;> simp only [bind_eq_ok, pure_eq_ok, Prod.exists, Prod.mk.injEq,
      exists_eq_right_right, Option.some.injEq, exists_eq_left', reduceCtorEq, false_and, false_or,
      Bool.false_eq_true, if_false, if_true, true_and, fail_ne_ok, and_false, exists_false]

theorem conversion_eq_ok {joined : Bool} {v : Option Conversion} :
    conversion joined c = .ok (v, after) ↔
      (c.word? "as" = none ∧ none = v ∧ c = after) ∨
      ∃ word, c.word? "as" = some word ∧
        ∃ id, word.skipBlanks.ident "cast target type" = .ok (id, after) ∧
          ∃ ty, castTarget? id.name = some ty ∧ joined = false ∧
            some ⟨ty, after.spanFrom c.pos⟩ = v := by
  unfold conversion
  cases hword : c.word? "as" with
  | none => simp
  | some word =>
    simp only [bind_eq_ok, Prod.exists, reduceCtorEq, false_and, false_or, Option.some.injEq,
      exists_eq_left']
    constructor
    · rintro ⟨id, c', hid, h⟩
      cases hty : castTarget? id.name with
      | none => simp [hty] at h
      | some ty =>
        cases joined with
        | true => simp [hty] at h
        | false =>
          simp only [hty, Bool.false_eq_true, if_false, pure_eq_ok, Prod.mk.injEq] at h
          obtain ⟨rfl, rfl⟩ := h
          exact ⟨id, hid, ty, hty, rfl, rfl⟩
    · rintro ⟨id, hid, ty, hty, rfl, rfl⟩
      refine ⟨id, after, hid, ?_⟩
      simp only [hty, Bool.false_eq_true, if_false]
      rfl

theorem chainLevel_eq_ok {t : Chain} : chainLevel chain c = .ok (t, after) ↔
    ∃ hd c₁, head chain c = .ok (hd, c₁) ∧
      ∃ steps c₂, stepsOnto chain (c₁.rest.length + 1) [] c₁ = .ok (steps, c₂) ∧
        ∃ a c₃, arithmetic (steps.getLast?.any Step.isJoin) c₂.skipBlanks = .ok (a, c₃) ∧
          ∃ v, conversion (steps.getLast?.any Step.isJoin) c₃.skipBlanks = .ok (v, after) ∧
            .mk hd steps a v (after.spanFrom c.pos) = t := by
  unfold chainLevel
  simp only [bind_eq_ok, pure_eq_ok, Prod.exists, Prod.mk.injEq, exists_eq_right_right]

theorem expression_eq_ok {start : Nat} {e : Expr} :
    expression chain start c = .ok (e, after) ↔
      c.skipBlanks.atEnd = false ∧ c.skipBlanks.eat? '}' = none ∧
        ∃ c', expr chain c.skipBlanks = .ok (e, c') ∧ c'.skipBlanks.eat? '}' = some after := by
  unfold expression
  dsimp only
  cases hend : c.skipBlanks.atEnd with
  | true => simp
  | false =>
    cases hbrace : c.skipBlanks.eat? '}' with
    | some close => simp
    | none =>
      simp only [Bool.false_eq_true, if_false, bind_eq_ok, Prod.exists, true_and]
      constructor
      · rintro ⟨e', c', he, h⟩
        cases hclose : c'.skipBlanks.eat? '}' with
        | none =>
          simp only [hclose] at h
          split at h <;> simp at h
        | some close =>
          simp only [hclose, pure_eq_ok, Prod.mk.injEq] at h
          obtain ⟨rfl, rfl⟩ := h
          exact ⟨c', he, hclose⟩
      · rintro ⟨c', he, hclose⟩
        refine ⟨e, c', he, ?_⟩
        simp only [hclose]
        rfl

end Parser

end PathTemplate.Template
