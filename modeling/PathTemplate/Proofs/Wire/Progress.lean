import PathTemplate.Proofs.Wire.Streaming

namespace PathTemplate.Wire

open Read

/-- The byte offset that the error is about. -/
def DecodeError.offset : DecodeError → Nat
  | .unexpectedEof pos _ | .unknownTag _ pos | .malformedString pos | .dateTimeOutOfRange pos _
  | .endOfRecordInList pos | .negativeLength pos _ | .nestingTooDeep pos | .unterminatedRecord pos =>
    pos

structure Cursor.In (bytes : List UInt8) (c : Cursor) : Prop where
  within : c.pos ≤ bytes.length
  rest : c.rest = bytes.drop c.pos

theorem Cursor.In.start (bytes : List UInt8) : (Cursor.ofBytes bytes).In bytes :=
  ⟨Nat.zero_le _, rfl⟩

theorem Cursor.In.remaining {bytes : List UInt8} {c : Cursor} (h : c.In bytes) :
    c.rest.length = bytes.length - c.pos := by
  rw [h.rest, List.length_drop]

variable {α β : Type} {bytes : List UInt8} {start n : Nat}

/-- A step from `c` has gone on within the buffer, by `least` bytes at least if it answers. An error
is about a place between `start` and the end. -/
structure Goes (bytes : List UInt8) (start least : Nat) (c : Cursor)
    (out : Except DecodeError α × Cursor) : Prop where
  here : out.2.In bytes
  ahead : c.pos ≤ out.2.pos
  takes : ∀ a, out.1 = .ok a → c.pos + least ≤ out.2.pos
  blames : ∀ e, out.1 = .error e → start ≤ e.offset ∧ e.offset ≤ bytes.length

def GoesOn (bytes : List UInt8) (start least : Nat) (r : Read α) : Prop :=
  ∀ c : Cursor, c.In bytes → start ≤ c.pos → Goes bytes start least c (r c)

namespace GoesOn

theorem pure (a : α) : GoesOn bytes start 0 (Pure.pure a) := by
  intro c hc _
  exact ⟨hc, Nat.le_refl _, fun _ _ => Nat.le_refl _, nofun⟩

theorem fail {e : DecodeError} (hstart : start ≤ e.offset) (hend : e.offset ≤ bytes.length) :
    GoesOn bytes start n (Read.fail e : Read α) := by
  intro c hc _
  refine ⟨hc, Nat.le_refl _, nofun, ?_⟩
  rintro e' ⟨⟩
  exact ⟨hstart, hend⟩

theorem position {f : Nat → Read α}
    (h : ∀ pos, start ≤ pos → pos ≤ bytes.length → GoesOn bytes start n (f pos)) :
    GoesOn bytes start n (Read.position >>= f) :=
  fun c hc hle => h c.pos hle hc.within c hc hle

theorem bind {r : Read α} {f : α → Read β} (hr : GoesOn bytes start n r)
    (hf : ∀ a, GoesOn bytes start 0 (f a)) : GoesOn bytes start n (r >>= f) := by
  intro c hc hle
  have hfirst := hr c hc hle
  rw [bind_apply]
  split
  next a c₁ ha =>
    rw [ha] at hfirst
    have hsecond := hf a c₁ hfirst.here (Nat.le_trans hle hfirst.ahead)
    exact ⟨hsecond.here, Nat.le_trans hfirst.ahead hsecond.ahead,
      fun _ _ => Nat.le_trans (hfirst.takes a rfl) hsecond.ahead, hsecond.blames⟩
  next e c₁ he =>
    rw [he] at hfirst
    refine ⟨hfirst.here, hfirst.ahead, nofun, fun e' h => hfirst.blames e' ?_⟩
    simpa using h

theorem map {r : Read α} (h : GoesOn bytes start n r) (f : α → β) :
    GoesOn bytes start n (do return f (← r)) :=
  h.bind fun a => pure (f a)

theorem loosen {r : Read α} (h : GoesOn bytes start n r) : GoesOn bytes start 0 r := by
  intro c hc hle
  have hgoes := h c hc hle
  exact { hgoes with takes := fun _ _ => hgoes.ahead }

theorem repeatOnto {r : Read α} (h : GoesOn bytes start n r) (k : Nat) (out : List α) :
    GoesOn bytes start 0 (Read.repeatOnto r k out) := by
  induction k generalizing out with
  | zero => exact pure out.reverse
  | succ k ih =>
    rw [repeatOnto_succ]
    exact h.loosen.bind fun a => ih (a :: out)

end GoesOn

/-- The step that takes bytes takes a slice of the buffer, or none when it would reach beyond the
end. -/
theorem take_slice {c : Cursor} (hc : c.In bytes) (n : Nat) :
    take n c = if c.pos + n ≤ bytes.length
      then (.ok ((bytes.drop c.pos).take n), ⟨c.pos + n, bytes.drop (c.pos + n)⟩)
      else (.error (.unexpectedEof c.pos (c.pos + n - bytes.length)), c) := by
  have hwithin := hc.within
  simp only [take, hc.rest, List.splitAt_eq, List.length_take, List.length_drop, List.drop_drop]
  split
  next hlen => rw [if_pos (by omega)]
  next hlen =>
    rw [if_neg (by omega)]
    have hneeded : n - min n (bytes.length - c.pos) = c.pos + n - bytes.length := by omega
    rw [hneeded]

theorem goesOn_take (n : Nat) : GoesOn bytes start n (take n) := by
  intro c hc hle
  rw [take_slice hc]
  split
  next hfits => exact ⟨⟨hfits, rfl⟩, Nat.le_add_right _ _, fun _ _ => Nat.le_refl _, nofun⟩
  next hshort =>
    refine ⟨hc, Nat.le_refl _, nofun, ?_⟩
    rintro e ⟨⟩
    exact ⟨hle, hc.within⟩

namespace ModifiedUtf8

theorem unitsOnto_offset {pos offset : Nat} {out : List Nat} {bytes : List UInt8}
    (h : unitsOnto pos out bytes = .error offset) : offset ≤ pos + bytes.length := by
  fun_induction unitsOnto pos out bytes <;> simp_all <;> omega

theorem decode_offset {bytes : List UInt8} {offset : Nat} (h : decode bytes = .error offset) :
    offset ≤ bytes.length := by
  rw [decode_eq_decodeGroups, decodeGroups] at h
  cases hu : unitsOnto 0 [] bytes with
  | error e =>
    rw [hu] at h
    cases h
    simpa using unitsOnto_offset hu
  | ok units =>
    rw [hu] at h
    dsimp only [Bind.bind, Except.bind] at h
    split at h
    · cases h
    · cases h
      exact Nat.zero_le _

end ModifiedUtf8

theorem goesOn_unsigned (width : Nat) : GoesOn bytes start width (unsigned width) :=
  (goesOn_take width).map _

theorem goesOn_tag : GoesOn bytes start 1 tag := by
  refine .position fun pos hstart hend => (goesOn_unsigned 1).bind fun b => ?_
  split
  · exact .pure _
  · exact .fail hstart hend

theorem goesOn_millis : GoesOn bytes start 8 millis := (goesOn_unsigned 8).map _

theorem goesOn_string : GoesOn bytes start 0 string := by
  refine (goesOn_unsigned 2).loosen.bind fun k => ?_
  intro c hc hle
  -- Offsets in a text count from its first byte, and its last one is in the buffer.
  rw [bind_apply]
  dsimp only [position]
  have hgoes : Goes bytes start k c (take k c) := goesOn_take k c hc hle
  rw [bind_apply]
  rw [take_slice hc] at hgoes ⊢
  split at hgoes
  next hfits =>
    rw [if_pos hfits]
    dsimp only
    cases hdecode : ModifiedUtf8.decode ((bytes.drop c.pos).take k) with
    | ok cs => exact ⟨hgoes.here, hgoes.ahead, fun _ _ => hgoes.ahead, nofun⟩
    | error offset =>
      have hoffset := ModifiedUtf8.decode_offset hdecode
      rw [List.length_take] at hoffset
      refine ⟨hgoes.here, hgoes.ahead, nofun, ?_⟩
      rintro e ⟨⟩
      simp only [DecodeError.offset]
      omega
  next hshort =>
    rw [if_neg hshort]
    refine ⟨hgoes.here, hgoes.ahead, nofun, fun e he => hgoes.blames e ?_⟩
    simpa using he

section Payloads

variable {pos : Nat} (hstart : start ≤ pos) (hend : pos ≤ bytes.length)

include hstart hend

theorem goesOn_length : GoesOn bytes start 4 (length pos) := by
  refine (goesOn_unsigned 4).bind fun b => ?_
  dsimp only
  split
  · exact .fail hstart hend
  · exact .pure _

theorem goesOn_scalar {t : Tag} (ht : t ≠ .list) (levels : Nat) :
    GoesOn bytes start 0 (payload levels t pos) := by
  cases t with
  | list => exact absurd rfl ht
  | endOfRecord =>
    simp only [payload]
    exact .fail hstart hend
  | string =>
    simp only [payload]
    exact goesOn_string
  | raw =>
    simp only [payload]
    exact (goesOn_length hstart hend).loosen.bind fun k => (goesOn_take k).loosen.map Cell.raw
  | dateTime =>
    simp only [payload]
    refine goesOn_millis.loosen.bind fun ms => ?_
    split
    · exact .pure _
    · exact .fail hstart hend
  | date =>
    simp only [payload]
    refine goesOn_millis.loosen.bind fun ms => ?_
    split
    · exact .pure _
    · exact .fail hstart hend
  | _ =>
    simp only [payload]
    exact (goesOn_unsigned _).loosen.map _

end Payloads

theorem goesOn_payload (levels : Nat) (t : Tag) {pos : Nat} (hstart : start ≤ pos)
    (hend : pos ≤ bytes.length) : GoesOn bytes start 0 (payload levels t pos) := by
  by_cases ht : t = .list
  · subst ht
    induction levels generalizing pos with
    | zero =>
      simp only [payload]
      exact .fail hstart hend
    | succ levels ih =>
      have hitem : GoesOn bytes start 1 (item levels) := by
        refine .position fun place hfrom hto => goesOn_tag.bind fun t => ?_
        by_cases ht : t = .list
        · exact ht ▸ ih hfrom hto
        · exact goesOn_scalar hfrom hto ht levels
      simp only [payload]
      exact (goesOn_length hstart hend).loosen.bind fun k => (hitem.repeatOnto k []).map Cell.list
  · exact goesOn_scalar hstart hend ht levels

theorem goesOn_cell : GoesOn bytes start 1 Read.cell :=
  .position fun _ hstart hend => goesOn_tag.bind fun t => goesOn_payload maxListDepth t hstart hend

theorem goesOn_someItem : GoesOn bytes start 1 someItem := by
  refine .position fun pos hstart hend => goesOn_tag.bind fun t => ?_
  split
  · exact .pure _
  · exact (goesOn_payload maxListDepth t hstart hend).map Item.cell

theorem goesOn_itemFrom {pos : Nat} (hstart : start ≤ pos) (hend : pos ≤ bytes.length) :
    GoesOn bytes start 1 (itemFrom pos) := by
  intro c hc hle
  by_cases hrest : c.rest = []
  · have hgoes : GoesOn bytes start 1 (fail (.unterminatedRecord pos) : Read Item) :=
      .fail hstart hend
    rw [show c = ⟨c.pos, []⟩ from hrest ▸ rfl] at hc hle ⊢
    exact hgoes _ hc hle
  · rw [itemFrom_of_ne_nil hrest]
    exact goesOn_someItem c hc hle

theorem goesOn_cellsOnto {pos : Nat} (hstart : start ≤ pos) (hend : pos ≤ bytes.length)
    (bound : Nat) (out : List Cell) : GoesOn bytes start 1 (cellsOnto pos bound out) := by
  induction bound generalizing out with
  | zero => exact .fail hstart hend
  | succ bound ih =>
    rw [cellsOnto_item]
    refine (goesOn_itemFrom hstart hend).bind fun i => ?_
    cases i with
    | cell v => exact (ih (v :: out)).loosen
    | endOfRecord => exact .pure _

inductive Call where
  | nextItem
  | cell
  | row

inductive Found where
  | item (i : Item)
  | cell (v : Cell)
  | row (cells : Row)

def Call.read : Call → Read (Option Found)
  | .nextItem => do return (← Read.nextItem).map .item
  | .cell => do return some (.cell (← Read.cell))
  | .row => do return (← Read.row).map .row

/-- A call that was made, with the places before and after it. -/
structure Visit where
  before : Cursor
  answer : Except DecodeError (Option Found)
  after : Cursor

/-- The calls one after the other, each from where the one before it stopped, failed or not. -/
def visits : List Call → Cursor → List Visit
  | [], _ => []
  | call :: calls, c => ⟨c, (call.read c).1, (call.read c).2⟩ :: visits calls (call.read c).2

structure Visit.Keeps (bytes : List UInt8) (v : Visit) : Prop where
  here : v.after.In bytes
  ahead : v.before.pos ≤ v.after.pos
  finds : ∀ found, v.answer = .ok (some found) → v.before.pos < v.after.pos
  blames : ∀ e, v.answer = .error e → v.before.pos ≤ e.offset ∧ e.offset ≤ bytes.length

theorem Goes.keeps {c : Cursor} {r : Read (Option Found)} (h : Goes bytes c.pos 1 c (r c)) :
    Visit.Keeps bytes ⟨c, (r c).1, (r c).2⟩ :=
  ⟨h.here, h.ahead, fun _ ha => h.takes _ ha, h.blames⟩

theorem keeps_atEnd {c : Cursor} (hc : c.In bytes) : Visit.Keeps bytes ⟨c, .ok none, c⟩ :=
  ⟨hc, Nat.le_refl _, nofun, nofun⟩

theorem Call.keeps (call : Call) {c : Cursor} (hc : c.In bytes) :
    Visit.Keeps bytes ⟨c, (call.read c).1, (call.read c).2⟩ := by
  cases call with
  | cell => exact (goesOn_cell.map fun v => some (Found.cell v)) c hc (Nat.le_refl _) |>.keeps
  | nextItem =>
    by_cases hrest : c.rest = []
    · have hend : Call.nextItem.read c = (.ok none, c) := by
        rw [show c = ⟨c.pos, []⟩ from hrest ▸ rfl]
        rfl
      rw [hend]
      exact keeps_atEnd hc
    · have hread : Call.nextItem.read c =
          (do return some (.item (← someItem)) : Read (Option Found)) c := by
        rw [Call.read, bind_apply, nextItem_eq_someItem hrest, bind_apply, bind_apply]
        rcases someItem c with ⟨e | i, c'⟩ <;> rfl
      rw [hread]
      exact (goesOn_someItem.map fun i => some (Found.item i)) c hc (Nat.le_refl _) |>.keeps
  | row =>
    by_cases hrest : c.rest = []
    · have hend : Call.row.read c = (.ok none, c) := by
        rw [show c = ⟨c.pos, []⟩ from hrest ▸ rfl]
        rfl
      rw [hend]
      exact keeps_atEnd hc
    · have hread : Call.row.read c = (do
          return some (.row (← cellsOnto c.pos (c.rest.length + 1) [])) : Read (Option Found)) c := by
        rw [Call.read, bind_apply, row_within hrest (Nat.lt_succ_self _), bind_apply, bind_apply]
        rcases cellsOnto c.pos (c.rest.length + 1) [] c with ⟨e | cells, c'⟩ <;> rfl
      rw [hread]
      have hgoes := goesOn_cellsOnto (Nat.le_refl c.pos) hc.within (c.rest.length + 1) []
      exact (hgoes.map fun cells => some (Found.row cells)) c hc (Nat.le_refl _) |>.keeps

theorem visits_keep (calls : List Call) {c : Cursor} (hc : c.In bytes) :
    (∀ v ∈ visits calls c, c.pos ≤ v.after.pos ∧ v.Keeps bytes) ∧
      ((visits calls c).map (·.after.pos)).Pairwise (· ≤ ·) := by
  induction calls generalizing c with
  | nil => simp [visits]
  | cons call calls ih =>
    have hfirst := call.keeps hc
    obtain ⟨hrest, hsorted⟩ := ih hfirst.here
    rw [visits, List.forall_mem_cons, List.map_cons, List.pairwise_cons]
    refine ⟨⟨⟨hfirst.ahead, hfirst⟩, fun v hv => ?_⟩, ?_, hsorted⟩
    · exact ⟨Nat.le_trans hfirst.ahead (hrest v hv).1, (hrest v hv).2⟩
    · rintro pos hpos
      obtain ⟨v, hv, rfl⟩ := List.mem_map.mp hpos
      exact (hrest v hv).1

/-- A reader never goes back and never leaves its buffer, whatever it is asked for and whatever
fails. What it finds takes a byte at least, an error is about a place from where its call began up
to the end, and bytes are only taken where there are as many. -/
theorem reader_keeps_to_buffer (bytes : List UInt8) (calls : List Call) :
    ((visits calls (.ofBytes bytes)).map (·.after.pos)).Pairwise (· ≤ ·) ∧
    (∀ v ∈ visits calls (.ofBytes bytes),
      (v.before.pos ≤ v.after.pos ∧ v.after.pos ≤ bytes.length) ∧
      (v.after.rest = bytes.drop v.after.pos ∧
        v.after.rest.length = bytes.length - v.after.pos) ∧
      (∀ found, v.answer = .ok (some found) → v.before.pos < v.after.pos) ∧
      (∀ e, v.answer = .error e → v.before.pos ≤ e.offset ∧ e.offset ≤ bytes.length)) ∧
    ∀ c : Cursor, c.In bytes → ∀ n, take n c = if c.pos + n ≤ bytes.length
      then (.ok ((bytes.drop c.pos).take n), ⟨c.pos + n, bytes.drop (c.pos + n)⟩)
      else (.error (.unexpectedEof c.pos (c.pos + n - bytes.length)), c) := by
  obtain ⟨hkeep, hsorted⟩ := visits_keep calls (Cursor.In.start bytes)
  refine ⟨hsorted, fun v hv => ?_, fun c hc n => take_slice hc n⟩
  have hv := (hkeep v hv).2
  exact ⟨⟨hv.ahead, hv.here.within⟩, ⟨hv.here.rest, hv.here.remaining⟩, hv.finds, hv.blames⟩

example : (visits [.cell, .row, .nextItem]
    (.ofBytes [12, 0, 0, 0, 2, 4, 1, 0, 11, 0, 2, 97, 0xC2])).map
      (fun v => (v.before.pos, v.after.pos)) = [(0, 8), (8, 13), (13, 13)] := rfl

end PathTemplate.Wire
