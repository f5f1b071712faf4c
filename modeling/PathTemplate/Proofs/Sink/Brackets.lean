import PathTemplate.Proofs.Template.Numerals
import PathTemplate.Sink.Text

/-!
Lists as text. The first character of an item tells its kind. Numbers and texts in a list are written
as in a template, where they can be read back up to what follows them; so a list can be told from its
text, with all that is in it.
-/

namespace PathTemplate

open PathTemplate.Template PathTemplate.Template.Cursor

variable {ρ : Type}

/-- Nulls, truth values, long numbers, texts, and lists of such values. -/
inductive Value.IsLegible : Value ρ → Prop where
  | null : IsLegible .null
  | bool (b : Bool) : IsLegible (.bool b)
  | long (n : Int64) : IsLegible (.long n)
  | string (s : String) : IsLegible (.string s)
  | list {items : List (Value ρ)} (h : ∀ v ∈ items, v.IsLegible) : IsLegible (.list items)

namespace TextFormat

variable (f : TextFormat)

/-- What an item adds to the text of its list. -/
def itemChars (v : Value ρ) : List Char := (item v (f.text v)).toList

def moreChars : List (Value ρ) → List Char
  | [] => [']']
  | v :: vs => ',' :: (f.itemChars v ++ moreChars vs)

def listChars : List (Value ρ) → List Char
  | [] => [']']
  | v :: vs => f.itemChars v ++ f.moreChars vs

theorem toList_text_list (items : List (Value ρ)) :
    (f.text (.list items)).toList = '[' :: f.listChars items := by
  have hmore : ∀ (v : Value ρ) (vs : List (Value ρ)),
      (",".intercalate (f.itemTexts (v :: vs))).toList ++ [']'] =
        f.itemChars v ++ f.moreChars vs := by
    intro v vs
    induction vs generalizing v with
    | nil => simp [itemTexts, moreChars, itemChars]
    | cons w ws ih =>
      rw [itemTexts, itemTexts, String.intercalate_cons_cons, ← itemTexts, String.toList_append,
        String.toList_append, List.append_assoc, List.append_assoc, ih]
      rfl
  cases items with
  | nil => simp [text, itemTexts, listChars]
  | cons v vs =>
    rw [listChars, ← hmore, text]
    simp

theorem itemChars_bool (b : Bool) : f.itemChars (.bool b : Value ρ) = boolText b := by
  cases b <;> rfl

theorem itemChars_long (form : FloatForm) (n : Int64) :
    f.itemChars (.long n : Value ρ) = operandText form (.int n) := by
  show n.toInt.repr.toList = intText n
  rw [Int.repr_eq_if, intText, ← Nat.toList_repr]
  by_cases hn : 0 ≤ n.toInt
  · rw [if_pos hn, show decide (n.toInt < 0) = false by simpa using hn,
      show n.toInt.natAbs = n.toInt.toNat by omega]
    rfl
  · rw [if_neg hn, show decide (n.toInt < 0) = true by simpa using hn,
      show n.toInt.natAbs = (-n.toInt).toNat by omega, String.toList_append]
    rfl

theorem itemChars_string (s : String) :
    f.itemChars (.string s : Value ρ) = quotedText s := by
  have hchar : quoteChar = escape := by
    funext c
    simp only [quoteChar, escape, Bool.or_eq_true, decide_eq_true_eq, or_comm]
  simp [itemChars, item, quote, quotedText, hchar]

theorem itemChars_list (items : List (Value ρ)) :
    f.itemChars (.list items) = '[' :: f.listChars items := f.toList_text_list items

def kindOf (x : Char) : String :=
  if x = 'n' then "null"
  else if x = 't' || x = 'f' then "bool"
  else if x = '"' then "string"
  else if x = '[' then "list"
  else if x = ',' || x = ']' then ""
  else "long"

theorem kindOf_of_atNumber {x : Char} {cs : List Char} {pos : Nat} (h : atNumber ⟨pos, x :: cs⟩) :
    kindOf x = "long" := by
  have hne : ∀ y, atNumber ⟨pos, y :: cs⟩ = false → x ≠ y := by
    rintro y hy rfl
    simp [h] at hy
  simp [kindOf, hne 'n' rfl, hne 't' rfl, hne 'f' rfl, hne '"' rfl, hne '[' rfl, hne ',' rfl,
    hne ']' rfl]

theorem itemChars_kind {v : Value ρ} (hv : v.IsLegible) :
    ∃ x cs, f.itemChars v = x :: cs ∧ kindOf x = v.kind := by
  cases hv with
  | null => exact ⟨'n', ['u', 'l', 'l'], by simp [itemChars, item], rfl⟩
  | bool b => cases b <;> simp [itemChars_bool, boolText, kindOf, Value.kind]
  | long n =>
    obtain ⟨stop, hread⟩ := number_operandText .exact (n := .int n) trivial stops_nil 0
    rw [List.append_nil, ← f.itemChars_long (ρ := ρ) .exact] at hread
    have hat := atNumber_of_number hread
    cases hcs : f.itemChars (.long n : Value ρ) with
    | nil => simp [hcs, atNumber, peek] at hat
    | cons x cs =>
      rw [hcs] at hat
      exact ⟨x, cs, rfl, kindOf_of_atNumber hat⟩
  | string s => exact ⟨'"', _, f.itemChars_string s, rfl⟩
  | @list items h => exact ⟨'[', _, f.itemChars_list items, rfl⟩

theorem kind_eq_of_itemChars {v w : Value ρ} (hv : v.IsLegible) (hw : w.IsLegible)
    {r r' : List Char} (h : f.itemChars v ++ r = f.itemChars w ++ r') : v.kind = w.kind := by
  obtain ⟨x, cs, hx, hkind⟩ := f.itemChars_kind hv
  obtain ⟨y, ds, hy, hkind'⟩ := f.itemChars_kind hw
  rw [hx, hy, List.cons_append, List.cons_append] at h
  rw [← hkind, ← hkind', (List.cons.inj h).1]

def Ends (rest : List Char) : Prop := ∃ x tail, rest = x :: tail ∧ (x = ',' ∨ x = ']')

theorem moreChars_ends (vs : List (Value ρ)) (rest : List Char) : Ends (f.moreChars vs ++ rest) := by
  cases vs with
  | nil => exact ⟨']', _, rfl, .inr rfl⟩
  | cons v vs => exact ⟨',', _, rfl, .inl rfl⟩

theorem Ends.stops {rest : List Char} (h : Ends rest) : Stops isNumberChar rest := by
  obtain ⟨x, tail, rfl, rfl | rfl⟩ := h <;> exact stops_cons.mpr (by decide)

theorem not_ends_itemChars {v : Value ρ} (hv : v.IsLegible) (rest : List Char) :
    ¬Ends (f.itemChars v ++ rest) := by
  obtain ⟨y, cs, hcs, hkind⟩ := f.itemChars_kind hv
  rintro ⟨x, tail, heq, hx⟩
  rw [hcs, List.cons_append] at heq
  obtain rfl := (List.cons.inj heq).1
  have hnone : kindOf y = "" := by rcases hx with rfl | rfl <;> decide
  rw [hnone] at hkind
  cases hv <;> simp [Value.kind] at hkind

/-- An item can be told from any text that it starts. -/
def Tells (v : Value ρ) : Prop :=
  ∀ {w : Value ρ} {r r' : List Char}, w.IsLegible → Ends r → Ends r' →
    f.itemChars v ++ r = f.itemChars w ++ r' → v = w ∧ r = r'

variable {f}

theorem read_inj {α : Type} {reader : Reader α} {a b : α} {cs r r' : List Char}
    (ha : ∃ stop, reader ⟨0, cs⟩ = .ok (a, ⟨stop, r⟩))
    (hb : ∃ stop, reader ⟨0, cs⟩ = .ok (b, ⟨stop, r'⟩)) : a = b ∧ r = r' := by
  obtain ⟨stop, ha⟩ := ha
  obtain ⟨stop', hb⟩ := hb
  rw [ha] at hb
  cases hb
  exact ⟨rfl, rfl⟩

theorem moreChars_append_inj {vs ws : List (Value ρ)} {r r' : List Char}
    (hvs : ∀ v ∈ vs, f.Tells v) (hws : ∀ w ∈ ws, w.IsLegible)
    (h : f.moreChars vs ++ r = f.moreChars ws ++ r') : vs = ws ∧ r = r' := by
  induction vs generalizing ws with
  | nil =>
    cases ws with
    | nil => exact ⟨rfl, (List.cons.inj h).2⟩
    | cons w ws => exact absurd (List.cons.inj h).1 (by decide)
  | cons v vs ih =>
    cases ws with
    | nil => exact absurd (List.cons.inj h).1 (by decide)
    | cons w ws =>
      obtain ⟨hv, hvs⟩ := List.forall_mem_cons.mp hvs
      obtain ⟨hw, hws⟩ := List.forall_mem_cons.mp hws
      simp only [moreChars, List.cons_append, List.append_assoc] at h
      obtain ⟨hvw, hmore⟩ :=
        hv hw (f.moreChars_ends vs r) (f.moreChars_ends ws r') (List.cons.inj h).2
      obtain ⟨hrest, hr⟩ := ih hvs hws hmore
      exact ⟨by rw [hvw, hrest], hr⟩

theorem listChars_append_inj {vs ws : List (Value ρ)} {r r' : List Char}
    (hlegible : ∀ v ∈ vs, v.IsLegible) (hvs : ∀ v ∈ vs, f.Tells v) (hws : ∀ w ∈ ws, w.IsLegible)
    (h : f.listChars vs ++ r = f.listChars ws ++ r') : vs = ws ∧ r = r' := by
  have hempty : ∀ rest, Ends (f.listChars ([] : List (Value ρ)) ++ rest) :=
    fun rest => ⟨']', rest, rfl, .inr rfl⟩
  cases vs with
  | nil =>
    cases ws with
    | nil => exact ⟨rfl, (List.cons.inj h).2⟩
    | cons w ws =>
      have hends := hempty r
      rw [h, listChars, List.append_assoc] at hends
      exact absurd hends (f.not_ends_itemChars (hws w List.mem_cons_self) _)
  | cons v vs =>
    cases ws with
    | nil =>
      have hends := hempty r'
      rw [← h, listChars, List.append_assoc] at hends
      exact absurd hends (f.not_ends_itemChars (hlegible v List.mem_cons_self) _)
    | cons w ws =>
      obtain ⟨hv, hvs⟩ := List.forall_mem_cons.mp hvs
      obtain ⟨hw, hws⟩ := List.forall_mem_cons.mp hws
      simp only [listChars, List.append_assoc] at h
      obtain ⟨hvw, hmore⟩ := hv hw (f.moreChars_ends vs r) (f.moreChars_ends ws r') h
      obtain ⟨hrest, hr⟩ := moreChars_append_inj hvs hws hmore
      exact ⟨by rw [hvw, hrest], hr⟩

theorem tells {v : Value ρ} (hv : v.IsLegible) : f.Tells v := by
  induction hv with
  | null =>
    intro w r r' hw hr hr' h
    have hkind := f.kind_eq_of_itemChars .null hw h
    cases hw with
    | null => exact ⟨rfl, List.append_cancel_left h⟩
    | _ => simp [Value.kind] at hkind
  | bool b =>
    intro w r r' hw hr hr' h
    have hkind := f.kind_eq_of_itemChars (.bool b) hw h
    cases hw with
    | bool b' =>
      rw [itemChars_bool, itemChars_bool] at h
      cases b <;> cases b' <;> simp_all [boolText]
    | _ => simp [Value.kind] at hkind
  | long n =>
    intro w r r' hw hr hr' h
    have hkind := f.kind_eq_of_itemChars (.long n) hw h
    cases hw with
    | long n' =>
      have hread := number_operandText .exact (n := .int n) trivial hr.stops 0
      rw [itemChars_long _ .exact, itemChars_long _ .exact] at h
      rw [h] at hread
      obtain ⟨hn, hrest⟩ :=
        read_inj hread (number_operandText .exact (n := .int n') trivial hr'.stops 0)
      exact ⟨by rw [Operand.int.inj hn], hrest⟩
    | _ => simp [Value.kind] at hkind
  | string s =>
    intro w r r' hw hr hr' h
    have hkind := f.kind_eq_of_itemChars (.string s) hw h
    cases hw with
    | string s' =>
      have hread := quoted_quotedText s r 0
      rw [itemChars_string, itemChars_string] at h
      rw [h] at hread
      obtain ⟨hs, hrest⟩ := read_inj hread (quoted_quotedText s' r' 0)
      exact ⟨by rw [hs], hrest⟩
    | _ => simp [Value.kind] at hkind
  | @list items hitems ih =>
    intro w r r' hw hr hr' h
    have hkind := f.kind_eq_of_itemChars (.list hitems) hw h
    cases hw with
    | list hitems' =>
      rw [itemChars_list, itemChars_list] at h
      obtain ⟨heq, hrest⟩ := listChars_append_inj hitems ih hitems' (List.cons.inj h).2
      exact ⟨by rw [heq], hrest⟩
    | _ => simp [Value.kind] at hkind

end TextFormat

/-- Two lists add the same text only if they are the same, item by item and at every depth. -/
theorem accept_list_text_inj (s : TextSink) {xs ys : List (Value ρ)} (hx : ∀ x ∈ xs, x.IsLegible)
    (hy : ∀ y ∈ ys, y.IsLegible) :
    (Sink.accept s (.list xs)).content = (Sink.accept s (.list ys)).content ↔ xs = ys := by
  constructor
  · intro h
    have htext : s.format.text (.list xs) = s.format.text (.list ys) :=
      (String.append_right_inj s.content).mp h
    have hchars := congrArg String.toList htext
    rw [TextFormat.toList_text_list, TextFormat.toList_text_list] at hchars
    have hitems : s.format.listChars xs ++ [] = s.format.listChars ys ++ [] := by
      rw [(List.cons.inj hchars).2]
    exact (TextFormat.listChars_append_inj hx (fun x h => TextFormat.tells (hx x h)) hy hitems).1
  · rintro rfl
    rfl

/-- Texts that hold quotes, commas and brackets, or the word for null, stay apart from those that
are closed by them and from null itself. -/
theorem accept_list_text_inj_quotes :
    (Sink.accept (TextSink.ofFormat .standard)
        (.list [.string "a\",\"b", .list [.null]] : Value Unit)).content ≠
      (Sink.accept (TextSink.ofFormat .standard)
        (.list [.string "a", .string "b", .list [.string "null"]] : Value Unit)).content := by
  have hnull : (Value.list [.null] : Value Unit).IsLegible := .list (by simp [Value.IsLegible.null])
  have hword : (Value.list [.string "null"] : Value Unit).IsLegible :=
    .list (by simp [Value.IsLegible.string])
  intro h
  have heq := (accept_list_text_inj (.ofFormat .standard)
    (by simp [hnull, Value.IsLegible.string]) (by simp [hword, Value.IsLegible.string])).mp h
  simp at heq

end PathTemplate
