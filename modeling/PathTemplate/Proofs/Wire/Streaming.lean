import PathTemplate.Proofs.Outcome
import PathTemplate.Proofs.Wire.RoundTrip

/-!
Buffers that are read piece by piece. A step that answers has not looked behind the bytes it read, so
that it answers the same whatever follows them, and stops short where one of them is missing. A step
also does the same further on in a buffer, but for the offsets in its errors. Main statement: of two
buffers, one after the other, the first can be read apart if nothing is wrong with it.
-/

namespace PathTemplate.Wire

open Read

variable {α β : Type}

/-- The buffer ended where more was expected. -/
def DecodeError.isCut : DecodeError → Bool
  | .unexpectedEof .. | .unterminatedRecord _ => true
  | _ => false

def StopsShort (r : Read α) (c : Cursor) : Prop :=
  ∃ e : DecodeError, e.isCut ∧ ∃ c', r c = (.error e, c')

/-- At a place, the step reads just these bytes and needs all of them. -/
structure Consumes (r : Read α) (pos : Nat) (bytes : List UInt8) (a : α) : Prop where
  answers : ∀ rest, r ⟨pos, bytes ++ rest⟩ = (.ok a, ⟨pos + bytes.length, rest⟩)
  short : ∀ p, p <+: bytes → p ≠ bytes → StopsShort r ⟨pos, p⟩

/-- Whenever the step answers, it does so because of the bytes up to where it stops. -/
def Streams (r : Read α) : Prop :=
  ∀ c a c', r c = (.ok a, c') → ∃ bytes, c.rest = bytes ++ c'.rest ∧ Consumes r c.pos bytes a

theorem Consumes.cursor_eq {r : Read α} {c c' : Cursor} {bytes : List UInt8} {a : α}
    (h : Consumes r c.pos bytes a) (hr : r c = (.ok a, c')) (hc : c.rest = bytes ++ c'.rest) :
    c' = ⟨c.pos + bytes.length, c'.rest⟩ := by
  have ha := h.answers c'.rest
  rw [← hc, hr] at ha
  exact (Prod.mk.inj ha).2

theorem Consumes.ne_nil {r : Read α} {pos : Nat} {bytes : List UInt8} {a : α}
    (h : Consumes r pos bytes a) (hend : (r ⟨pos, []⟩).1 ≠ .ok a) : bytes ≠ [] := by
  rintro rfl
  exact hend (congrArg Prod.fst (h.answers []))

namespace Streams

theorem pure (a : α) : Streams (Pure.pure a) := by
  intro c b c' h
  cases h
  exact ⟨[], rfl, fun rest => rfl, fun p hp hne => absurd (List.prefix_nil.mp hp) hne⟩

theorem fail (e : DecodeError) : Streams (Read.fail e : Read α) := by
  intro c a c' h
  cases h

theorem position {f : Nat → Read α} (h : ∀ pos, Streams (f pos)) :
    Streams (Read.position >>= f) := by
  intro c a c' hr
  obtain ⟨bytes, hc, hb⟩ := h c.pos c a c' hr
  exact ⟨bytes, hc, hb.answers, hb.short⟩

theorem bind {r : Read α} {f : α → Read β} (hr : Streams r) (hf : ∀ a, Streams (f a)) :
    Streams (r >>= f) := by
  intro c b c₂ h
  rw [bind_apply] at h
  split at h
  next a c₁ ha =>
    obtain ⟨bytes, hc, hb⟩ := hr c a c₁ ha
    obtain ⟨more, hc₁, hm⟩ := hf a c₁ b c₂ h
    obtain rfl : c₁ = ⟨c.pos + bytes.length, more ++ c₂.rest⟩ := by
      rw [← hc₁]
      exact hb.cursor_eq ha hc
    refine ⟨bytes ++ more, by rw [hc, List.append_assoc], fun rest => ?_, fun p hp hne => ?_⟩
    · rw [bind_apply, List.append_assoc, hb.answers]
      dsimp only
      rw [hm.answers, List.length_append, Nat.add_assoc]
    · -- The missing byte is one that the first step needs, or one that the second needs.
      by_cases hfirst : bytes <+: p
      · obtain ⟨p', rfl⟩ := hfirst
        obtain ⟨e, he, c', hshort⟩ := hm.short p' ((List.prefix_append_right_inj bytes).mp hp)
          fun heq => hne (congrArg _ heq)
        exact ⟨e, he, c', by rw [bind_apply, hb.answers]; exact hshort⟩
      · have hp' : p <+: bytes :=
          (List.prefix_or_prefix_of_prefix hp (List.prefix_append bytes more)).resolve_right hfirst
        have hne' : p ≠ bytes := fun heq => hfirst (heq ▸ List.prefix_refl _)
        obtain ⟨e, he, c', hshort⟩ := hb.short p hp' hne'
        exact ⟨e, he, c', by rw [bind_apply, hshort]⟩
  next => cases h

theorem map {r : Read α} (h : Streams r) (f : α → β) : Streams (do return f (← r)) :=
  h.bind fun a => pure (f a)

end Streams

theorem streams_take (n : Nat) : Streams (take n) := by
  intro c bytes c' h
  simp only [take, List.splitAt_eq] at h
  split at h
  next hlen =>
    cases h
    have hle : n ≤ c.rest.length := by
      rw [List.length_take] at hlen
      omega
    refine ⟨c.rest.take n, (List.take_append_drop n c.rest).symm, fun rest => ?_, fun p hp hne => ?_⟩
    · have h := yields_take (List.length_take_of_le hle) c.pos rest
      exact h
    · have hlt : p.length < n := by
        have hle' := hp.length_le
        have hne' : p.length ≠ (c.rest.take n).length := fun heq => hne (hp.eq_of_length heq)
        rw [hlen] at hle' hne'
        omega
      refine ⟨.unexpectedEof c.pos (n - p.length), rfl, ⟨c.pos, p⟩, ?_⟩
      have htake : p.take n = p := List.take_of_length_le (Nat.le_of_lt hlt)
      simp [take, htake, Nat.ne_of_lt hlt]
  next => cases h

/-- The same error about a buffer that begins so many bytes earlier. -/
def DecodeError.shift (n : Nat) : DecodeError → DecodeError
  | .unexpectedEof pos needed => .unexpectedEof (pos + n) needed
  | .unknownTag byte pos => .unknownTag byte (pos + n)
  | .malformedString pos => .malformedString (pos + n)
  | .dateTimeOutOfRange pos ms => .dateTimeOutOfRange (pos + n) ms
  | .endOfRecordInList pos => .endOfRecordInList (pos + n)
  | .negativeLength pos length => .negativeLength (pos + n) length
  | .nestingTooDeep pos => .nestingTooDeep (pos + n)
  | .unterminatedRecord pos => .unterminatedRecord (pos + n)

def Cursor.shift (n : Nat) (c : Cursor) : Cursor := ⟨c.pos + n, c.rest⟩

/-- A step that streams, and what it is further on: the same but for the offsets in errors. -/
structure Shifts (n : Nat) (r r' : Read α) : Prop where
  streams : Streams r
  moves : ∀ c, r' (c.shift n) = ((r c).1.mapError (·.shift n), (r c).2.shift n)

namespace Shifts

variable {n : Nat}

theorem pure (a : α) : Shifts n (Pure.pure a) (Pure.pure a) := ⟨.pure a, fun _ => rfl⟩

theorem fail (e : DecodeError) : Shifts n (Read.fail e : Read α) (Read.fail (e.shift n)) :=
  ⟨.fail e, fun _ => rfl⟩

theorem position {f f' : Nat → Read α} (h : ∀ pos, Shifts n (f pos) (f' (pos + n))) :
    Shifts n (Read.position >>= f) (Read.position >>= f') :=
  ⟨.position fun pos => (h pos).streams, fun c => (h c.pos).moves c⟩

theorem bind {r r' : Read α} {f f' : α → Read β} (hr : Shifts n r r')
    (hf : ∀ a, Shifts n (f a) (f' a)) : Shifts n (r >>= f) (r' >>= f') := by
  refine ⟨hr.streams.bind fun a => (hf a).streams, fun c => ?_⟩
  rw [bind_apply, bind_apply, hr.moves]
  rcases r c with ⟨e | a, c'⟩
  · rfl
  · exact (hf a).moves c'

theorem map {r r' : Read α} (h : Shifts n r r') (f : α → β) :
    Shifts n (do return f (← r)) (do return f (← r')) :=
  h.bind fun a => pure (f a)

end Shifts

section Cells

variable {n : Nat}

theorem shifts_take (k : Nat) : Shifts n (take k) (take k) := by
  refine ⟨streams_take k, fun c => ?_⟩
  simp only [take, Cursor.shift, List.splitAt_eq]
  split
  · rw [Nat.add_right_comm]
    rfl
  · rfl

theorem shifts_unsigned (width : Nat) : Shifts n (unsigned width) (unsigned width) :=
  (shifts_take width).map Bytes.ofBigEndian

theorem shifts_tag : Shifts n tag tag := by
  refine .position fun pos => (shifts_unsigned 1).bind fun b => ?_
  cases Tag.ofByte? b.toUInt8 with
  | none => exact .fail (.unknownTag b.toUInt8 pos)
  | some t => exact .pure t

theorem shifts_length (pos : Nat) : Shifts n (length pos) (length (pos + n)) := by
  refine (shifts_unsigned 4).bind fun b => ?_
  dsimp only
  split
  · exact .fail (.negativeLength pos _)
  · exact .pure _

theorem shifts_millis : Shifts n millis millis :=
  (shifts_unsigned 8).map fun b => b.toUInt64.toInt64

theorem shifts_string : Shifts n string string := by
  refine (shifts_unsigned 2).bind fun k => .position fun start => (shifts_take k).bind ?_
  intro bytes
  cases ModifiedUtf8.decode bytes with
  | ok cs => exact .pure _
  | error offset =>
    dsimp only
    rw [Nat.add_right_comm]
    exact .fail (.malformedString (start + offset))

theorem shifts_repeatOnto {r r' : Read α} (h : Shifts n r r') (k : Nat) (out : List α) :
    Shifts n (repeatOnto r k out) (repeatOnto r' k out) := by
  induction k generalizing out with
  | zero => exact .pure out.reverse
  | succ k ih =>
    rw [repeatOnto_succ, repeatOnto_succ]
    exact h.bind fun a => ih (a :: out)

theorem shifts_scalar {t : Tag} (ht : t ≠ .list) (levels pos : Nat) :
    Shifts n (payload levels t pos) (payload levels t (pos + n)) := by
  cases t with
  | list => exact absurd rfl ht
  | endOfRecord =>
    simp only [payload]
    exact .fail (.endOfRecordInList pos)
  | string =>
    simp only [payload]
    exact shifts_string
  | raw =>
    simp only [payload]
    exact (shifts_length pos).bind fun k => (shifts_take k).map Cell.raw
  | dateTime =>
    simp only [payload]
    refine shifts_millis.bind fun ms => ?_
    cases Calendar.Instant.ofMillis? ms.toInt with
    | none => exact .fail (.dateTimeOutOfRange pos ms)
    | some t => exact .pure _
  | date =>
    simp only [payload]
    refine shifts_millis.bind fun ms => ?_
    cases Calendar.Date.ofDay? (ms.toInt / millisPerDay) with
    | none => exact .fail (.dateTimeOutOfRange pos ms)
    | some d => exact .pure _
  | _ =>
    simp only [payload]
    exact (shifts_unsigned _).map _

theorem shifts_payload (levels : Nat) (t : Tag) (pos : Nat) :
    Shifts n (payload levels t pos) (payload levels t (pos + n)) := by
  by_cases ht : t = .list
  · subst ht
    induction levels generalizing pos with
    | zero =>
      simp only [payload]
      exact .fail (.nestingTooDeep pos)
    | succ levels ih =>
      have hitem : Shifts n (item levels) (item levels) := by
        refine .position fun place => shifts_tag.bind fun t => ?_
        by_cases ht : t = .list
        · exact ht ▸ ih place
        · exact shifts_scalar ht levels place
      simp only [payload]
      exact (shifts_length pos).bind fun k => (shifts_repeatOnto hitem k []).map Cell.list
  · exact shifts_scalar ht levels pos

def someItem : Read Item := do
  let pos ← position
  let t ← tag
  if t = .endOfRecord then return .endOfRecord
  else return .cell (← payload maxListDepth t pos)

theorem shifts_someItem : Shifts n someItem someItem := by
  refine .position fun pos => shifts_tag.bind fun t => ?_
  split
  · exact .pure _
  · exact (shifts_payload maxListDepth t pos).map Item.cell

end Cells

def itemFrom (start : Nat) : Read Item := nextItem >>= fun
  | some i => Pure.pure i
  | none => fail (.unterminatedRecord start)

theorem itemFrom_nil (start pos : Nat) :
    itemFrom start ⟨pos, []⟩ = (.error (.unterminatedRecord start), ⟨pos, []⟩) := rfl

theorem nextItem_eq_someItem {c : Cursor} (h : c.rest ≠ []) :
    nextItem c = (do return some (← someItem) : Read (Option Item)) c := by
  rw [show c = ⟨c.pos, c.rest⟩ from rfl, nextItem_of_ne_nil h]
  simp only [someItem, bind_apply, position]
  rcases tag c with ⟨e | t, c'⟩
  · rfl
  · by_cases ht : t = .endOfRecord
    · simp only [ht, if_true]
      rfl
    · simp only [ht, if_false, bind_apply]
      rcases payload maxListDepth t c.pos c' with ⟨e | v, c''⟩ <;> rfl

theorem itemFrom_of_ne_nil {c : Cursor} (h : c.rest ≠ []) (start : Nat) :
    itemFrom start c = someItem c := by
  rw [itemFrom, bind_apply, nextItem_eq_someItem h, bind_apply]
  rcases someItem c with ⟨e | i, c'⟩ <;> rfl

theorem cellsOnto_item (start bound : Nat) (out : List Cell) :
    cellsOnto start (bound + 1) out = itemFrom start >>= fun
      | .cell v => cellsOnto start bound (v :: out)
      | .endOfRecord => Pure.pure out.reverse := by
  rw [cellsOnto_succ]
  funext c
  rw [itemFrom, bind_apply, bind_apply, bind_apply]
  rcases nextItem c with ⟨e | _ | i, c'⟩
  · rfl
  · rfl
  · cases i <;> rfl

theorem streams_itemFrom (start : Nat) : Streams (itemFrom start) := by
  intro c i c' h
  have hne : c.rest ≠ [] := by
    intro hnil
    rw [show c = ⟨c.pos, []⟩ from hnil ▸ rfl, itemFrom_nil] at h
    cases h
  rw [itemFrom_of_ne_nil hne] at h
  obtain ⟨bytes, hc, hb⟩ := (shifts_someItem (n := 0)).streams c i c' h
  -- An item takes a byte, its tag.
  have hbytes : bytes ≠ [] := hb.ne_nil nofun
  refine ⟨bytes, hc, fun rest => ?_, fun p hp hne => ?_⟩
  · rw [itemFrom_of_ne_nil (by simp [hbytes])]
    exact hb.answers rest
  · by_cases hnil : p = []
    · subst hnil
      exact ⟨_, rfl, _, itemFrom_nil start c.pos⟩
    · obtain ⟨e, he, c', hshort⟩ := hb.short p hp hne
      exact ⟨e, he, c', by rw [itemFrom_of_ne_nil hnil]; exact hshort⟩

theorem shifts_itemFrom {n : Nat} (start : Nat) :
    Shifts n (itemFrom start) (itemFrom (start + n)) := by
  refine ⟨streams_itemFrom start, fun c => ?_⟩
  by_cases hnil : c.rest = []
  · rw [show c = ⟨c.pos, []⟩ from hnil ▸ rfl]
    rfl
  · rw [itemFrom_of_ne_nil hnil, itemFrom_of_ne_nil (by exact hnil)]
    exact shifts_someItem.moves c

theorem shifts_cellsOnto {n : Nat} (start bound : Nat) (out : List Cell) :
    Shifts n (cellsOnto start bound out) (cellsOnto (start + n) bound out) := by
  induction bound generalizing out with
  | zero => exact .fail (.unterminatedRecord start)
  | succ bound ih =>
    rw [cellsOnto_item, cellsOnto_item]
    refine (shifts_itemFrom start).bind fun i => ?_
    cases i with
    | cell v => exact ih (v :: out)
    | endOfRecord => exact .pure out.reverse

theorem itemFrom_progress {start : Nat} {c c' : Cursor} {i : Item}
    (h : itemFrom start c = (.ok i, c')) : c'.rest.length < c.rest.length := by
  obtain ⟨bytes, hc, hb⟩ := streams_itemFrom start c i c' h
  have := List.length_pos_iff.mpr (hb.ne_nil nofun)
  rw [hc, List.length_append]
  omega

theorem cellsOnto_bound {c : Cursor} {bound bound' : Nat} (h : c.rest.length < bound)
    (h' : c.rest.length < bound') (start : Nat) (out : List Cell) :
    cellsOnto start bound out c = cellsOnto start bound' out c := by
  induction bound generalizing bound' c out with
  | zero => omega
  | succ bound ih =>
    obtain ⟨bound', rfl⟩ := Nat.exists_eq_add_one_of_ne_zero (Nat.ne_zero_of_lt h')
    rw [cellsOnto_item, cellsOnto_item, bind_apply, bind_apply]
    cases hi : itemFrom start c with
    | mk r c' =>
      cases r with
      | error e => rfl
      | ok i =>
        have hlt := itemFrom_progress hi
        cases i with
        | endOfRecord => rfl
        | cell v => exact ih (by omega) (by omega) (v :: out)

structure RowAt (pos : Nat) (bytes : List UInt8) (row : Row) : Prop where
  ne_nil : bytes ≠ []
  answers : ∀ rest, Read.row ⟨pos, bytes ++ rest⟩ = (.ok (some row), ⟨pos + bytes.length, rest⟩)
  short : ∀ p, p ≠ [] → p <+: bytes → p ≠ bytes → StopsShort Read.row ⟨pos, p⟩

theorem row_within {c : Cursor} (hne : c.rest ≠ []) {bound : Nat} (hb : c.rest.length < bound) :
    Read.row c = (do return some (← cellsOnto c.pos bound []) : Read (Option Row)) c := by
  rw [show c = ⟨c.pos, c.rest⟩ from rfl, row_of_ne_nil hne, bind_apply, bind_apply,
    cellsOnto_bound (Nat.lt_succ_self _) hb]

theorem row_streams {c c' : Cursor} {row : Row} (h : Read.row c = (.ok (some row), c')) :
    ∃ bytes, c.rest = bytes ++ c'.rest ∧ RowAt c.pos bytes row := by
  have hne : c.rest ≠ [] := by
    intro hnil
    rw [show c = ⟨c.pos, []⟩ from hnil ▸ rfl] at h
    cases h
  have hread : ∀ bound, c.rest.length < bound → ∃ bytes, c.rest = bytes ++ c'.rest ∧
      Consumes (do return some (← cellsOnto c.pos bound []) : Read (Option Row)) c.pos bytes
        (some row) := by
    intro bound hbound
    rw [row_within hne hbound] at h
    exact ((shifts_cellsOnto (n := 0) c.pos bound []).streams.map some) c _ c' h
  obtain ⟨bytes, hc, hb⟩ := hread (c.rest.length + 1) (Nat.lt_succ_self _)
  have hlen : bytes.length ≤ c.rest.length := by
    rw [hc, List.length_append]
    omega
  have hbytes : bytes ≠ [] := hb.ne_nil nofun
  refine ⟨bytes, hc, hbytes, fun rest => ?_, fun p hnil hp hne => ?_⟩
  · -- The same row is read within a bound that has room for what follows it instead.
    obtain ⟨bytes', hc', hb'⟩ := hread (c.rest.length + rest.length + 1) (by omega)
    obtain rfl : bytes' = bytes := List.append_cancel_right (hc'.symm.trans hc)
    rw [row_within (by simp [hbytes])
      (show (bytes' ++ rest).length < c.rest.length + rest.length + 1 by
        rw [List.length_append]
        omega)]
    exact hb'.answers rest
  · obtain ⟨e, he, c₁, hshort⟩ := hb.short p hp hne
    have hle := hp.length_le
    refine ⟨e, he, c₁, ?_⟩
    rw [row_within hnil (Nat.lt_succ_of_le (Nat.le_trans hle hlen))]
    exact hshort

theorem rowsWithin_bound {c : Cursor} {bound bound' : Nat} (h : c.rest.length < bound)
    (h' : c.rest.length < bound') : c.rowsWithin bound = c.rowsWithin bound' := by
  induction bound generalizing bound' c with
  | zero => omega
  | succ bound ih =>
    obtain ⟨bound', rfl⟩ := Nat.exists_eq_add_one_of_ne_zero (Nat.ne_zero_of_lt h')
    rw [Cursor.rowsWithin, Cursor.rowsWithin]
    cases hr : Read.row c with
    | mk r c' =>
      rcases r with e | _ | row
      · rfl
      · rfl
      · obtain ⟨bytes, hc, hrow⟩ := row_streams hr
        have hpos := List.length_pos_iff.mpr hrow.ne_nil
        rw [hc, List.length_append] at h h'
        simp only [ih (show c'.rest.length < bound by omega) (show c'.rest.length < bound' by omega)]

theorem rows_error {c c' : Cursor} {e : DecodeError} (h : Read.row c = (.error e, c')) :
    c.rows = [.error e] := by
  rw [Cursor.rows, Cursor.rowsWithin, h]

theorem rows_cons {pos : Nat} {bytes : List UInt8} {row : Row} (h : RowAt pos bytes row)
    (rest : List UInt8) :
    Cursor.rows ⟨pos, bytes ++ rest⟩ = .ok row :: Cursor.rows ⟨pos + bytes.length, rest⟩ := by
  have hlen := List.length_pos_iff.mpr h.ne_nil
  rw [Cursor.rows, Cursor.rowsWithin, h.answers]
  dsimp only
  rw [Cursor.rows, rowsWithin_bound (by simp; omega) (Nat.lt_succ_self _)]

theorem row_moves (n : Nat) (c : Cursor) :
    Read.row (c.shift n) =
      ((Read.row c).1.mapError (·.shift n), (Read.row c).2.shift n) := by
  by_cases hne : c.rest = []
  · rw [show c = ⟨c.pos, []⟩ from hne ▸ rfl]
    rfl
  · rw [row_within hne (Nat.lt_succ_self _), row_within (by exact hne) (Nat.lt_succ_self _)]
    exact ((shifts_cellsOnto c.pos (c.rest.length + 1) []).map some).moves c

theorem rows_shift (n : Nat) (c : Cursor) :
    (c.shift n).rows = c.rows.map (Except.mapError (·.shift n)) := by
  have h : ∀ bound (c : Cursor),
      (c.shift n).rowsWithin bound = (c.rowsWithin bound).map (Except.mapError (·.shift n)) := by
    intro bound
    induction bound with
    | zero => exact fun c => rfl
    | succ bound ih =>
      intro c
      rw [Cursor.rowsWithin, Cursor.rowsWithin, row_moves]
      rcases Read.row c with ⟨e | _ | row, c'⟩
      · rfl
      · rfl
      · exact congrArg _ (ih c')
  exact h (c.rest.length + 1) c

theorem rows_cases (c : Cursor) :
    (c.rest = [] ∧ c.rows = []) ∨
    (∃ bytes row rest, c.rest = bytes ++ rest ∧ RowAt c.pos bytes row ∧
      c.rows = .ok row :: Cursor.rows ⟨c.pos + bytes.length, rest⟩) ∨
    ∃ e, c.rows = [.error e] := by
  by_cases hne : c.rest = []
  · exact .inl ⟨hne, by rw [show c = ⟨c.pos, []⟩ from hne ▸ rfl]; rfl⟩
  · cases hr : Read.row c with
    | mk r c' =>
      rcases r with e | _ | row
      · exact .inr (.inr ⟨e, rows_error hr⟩)
      · rw [row_within hne (Nat.lt_succ_self _), bind_apply] at hr
        split at hr <;> cases hr
      · obtain ⟨bytes, hc, hrow⟩ := row_streams hr
        refine .inr (.inl ⟨bytes, row, c'.rest, hc, hrow, ?_⟩)
        rw [← rows_cons hrow, ← hc]

theorem rows_append {rows : List Row} {pos : Nat} {a : List UInt8}
    (h : Cursor.rows ⟨pos, a⟩ = rows.map .ok) (b : List UInt8) :
    Cursor.rows ⟨pos, a ++ b⟩ = rows.map .ok ++ Cursor.rows ⟨pos + a.length, b⟩ := by
  induction rows generalizing pos a with
  | nil =>
    rcases rows_cases ⟨pos, a⟩ with ⟨ha, -⟩ | ⟨bytes, row, rest, -, -, hrows⟩ | ⟨e, hrows⟩
    · obtain rfl : a = [] := ha
      rfl
    · rw [hrows] at h
      cases h
    · rw [hrows] at h
      cases h
  | cons row rows ih =>
    rcases rows_cases ⟨pos, a⟩ with ⟨-, hrows⟩ | ⟨bytes, row', rest, ha, hrow, hrows⟩ | ⟨e, hrows⟩
    · rw [hrows] at h
      cases h
    · obtain rfl : a = bytes ++ rest := ha
      rw [hrows, List.map_cons] at h
      obtain ⟨hhead, htail⟩ := List.cons.inj h
      cases hhead
      rw [List.append_assoc, rows_cons hrow, ih htail, List.length_append, Nat.add_assoc]
      rfl
    · rw [hrows] at h
      cases h

section Collecting

variable {ε ε' : Type}

theorem mapM_id_eq_ok {xs : List (Except ε α)} {ys : List α} :
    xs.mapM id = .ok ys ↔ xs = ys.map .ok := by
  refine ⟨fun h => ?_, fun h => h ▸ mapM_id_ok ys⟩
  induction xs generalizing ys with
  | nil =>
    cases h
    rfl
  | cons x xs ih =>
    rw [List.mapM_cons] at h
    obtain ⟨y, hy, h⟩ := bind_eq_ok.mp h
    obtain ⟨ys', hys, h⟩ := bind_eq_ok.mp h
    cases h
    rw [List.map_cons, ← ih hys]
    exact congrArg (· :: xs) hy

theorem mapM_id_append (ys : List α) (xs : List (Except ε α)) :
    (ys.map Except.ok ++ xs).mapM id = (xs.mapM id).map (ys ++ ·) := by
  induction ys with
  | nil =>
    rw [List.map_nil, List.nil_append]
    cases xs.mapM id <;> rfl
  | cons y ys ih =>
    rw [List.map_cons, List.cons_append, List.mapM_cons, ih]
    cases xs.mapM id <;> rfl

theorem mapM_id_mapError (f : ε → ε') (xs : List (Except ε α)) :
    (xs.map (Except.mapError f)).mapM id = (xs.mapM id).mapError f := by
  induction xs with
  | nil => rfl
  | cons x xs ih =>
    rw [List.map_cons, List.mapM_cons, List.mapM_cons, ih]
    cases x with
    | error e => rfl
    | ok a => cases xs.mapM id <;> rfl

end Collecting

/-- A buffer that can be decoded may be followed by any other: their rows come one after the other,
or the error of the second is reported where it is in both. -/
theorem decodeRows_append {a : List UInt8} {rows : List Row} (h : decodeRows a = .ok rows)
    (b : List UInt8) :
    decodeRows (a ++ b) =
      match decodeRows b with
      | .ok more => .ok (rows ++ more)
      | .error e => .error (e.shift a.length) := by
  have ha : Cursor.rows ⟨0, a⟩ = rows.map .ok := mapM_id_eq_ok.mp h
  have hb : Cursor.rows ⟨0 + a.length, b⟩ =
      (Cursor.rows ⟨0, b⟩).map (Except.mapError (·.shift a.length)) := rows_shift a.length ⟨0, b⟩
  have happend : decodeRows (a ++ b) =
      ((decodeRows b).mapError (·.shift a.length)).map (rows ++ ·) := by
    rw [decodeRows, Cursor.ofBytes, rows_append ha, hb, mapM_id_append, mapM_id_mapError]
    rfl
  rw [happend]
  cases decodeRows b <;> rfl

theorem decodeRows_append_torn :
    decodeRows [4, 1, 0] = .ok [[.bool true]] ∧
    decodeRows ([4, 1, 0] ++ [12, 0, 0, 0, 2, 4, 1, 0]) = .error (.endOfRecordInList 10) :=
  have h : decodeRows [4, 1, 0] = .ok [[.bool true]] := rfl
  ⟨h, decodeRows_append h [12, 0, 0, 0, 2, 4, 1, 0]⟩

theorem decodeRows_ended {bytes : List UInt8} {rows : List Row} (h : decodeRows bytes = .ok rows) :
    decodeRows (bytes ++ endOfRecord) = .ok (rows ++ [[]]) := by
  have hrows : Cursor.rows ⟨0, bytes⟩ = rows.map .ok := mapM_id_eq_ok.mp h
  have hmarker : Cursor.rows ⟨0 + bytes.length, endOfRecord⟩ = [.ok []] :=
    (rows_shift bytes.length ⟨0, endOfRecord⟩).trans rfl
  rw [decodeRows, Cursor.ofBytes, rows_append hrows, hmarker, mapM_id_append]
  rfl

end PathTemplate.Wire
