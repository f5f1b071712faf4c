import PathTemplate.Proofs.Wire.ModifiedUtf8
import PathTemplate.Proofs.Wire.Reading

/-!
What is written can be read. A cell comes back as it was, except that times lose what is below a
millisecond, as long as its lists do not nest deeper than the reader goes; a buffer of rows comes
back row by row, up to the first list that nests too deep.
-/

namespace PathTemplate

open Calendar

/-- Dates that the calendar covers. -/
def Calendar.Date.InRange (d : Date) : Prop := Date.first.day ≤ d.day ∧ d.day ≤ Date.last.day

/-- Instants of covered dates, outside of leap seconds. -/
def Calendar.Instant.InRange (t : Instant) : Prop := t.date.InRange ∧ t.nanos < 1000000000

/-- The millisecond that an instant is in. -/
def Calendar.Instant.floored (t : Instant) : Instant := ⟨t.seconds, t.nanos / 1000000 * 1000000⟩

theorem Calendar.Date.ofDay?_day {d : Date} (h : d.InRange) : Date.ofDay? d.day = some d :=
  if_pos h

theorem Calendar.Date.first_day : Date.first.day = -96465292 := by decide +kernel

theorem Calendar.Date.last_day : Date.last.day = 95026236 := by decide +kernel

theorem Calendar.Instant.ofMillis?_millis {t : Instant} (h : t.InRange) :
    Instant.ofMillis? t.millis = some t.floored := by
  obtain ⟨hdate, hn⟩ := h
  have hday : t.millis / 86400000 = t.date.day := by
    simp only [Instant.millis, Instant.date]
    omega
  have hsec : t.millis / 1000 = t.seconds := by
    simp only [Instant.millis]
    omega
  have hsub : (t.millis % 1000).toNat = t.nanos / 1000000 := by
    simp only [Instant.millis]
    omega
  rw [Instant.ofMillis?, hday, Date.ofDay?_day hdate, hsec, hsub]
  rfl

theorem Calendar.Instant.millis_bounds {t : Instant} (h : t.InRange) :
    -9223372036854775808 ≤ t.millis ∧ t.millis < 9223372036854775808 := by
  obtain ⟨⟨hlow, hhigh⟩, hn⟩ := h
  rw [Date.first_day] at hlow
  rw [Date.last_day] at hhigh
  simp only [Instant.date] at hlow hhigh
  simp only [Instant.millis]
  omega

namespace Wire

open Read

mutual

def Cell.InRange : Cell → Prop
  | .dateTime t => t.InRange
  | .date d => d.InRange
  | .list items => allInRange items
  | _ => True

def allInRange : List Cell → Prop
  | [] => True
  | c :: cs => c.InRange ∧ allInRange cs

end

mutual

/-- How deep lists nest in a cell. -/
def Cell.depth : Cell → Nat
  | .list items => deepest items + 1
  | _ => 0

def deepest : List Cell → Nat
  | [] => 0
  | c :: cs => max c.depth (deepest cs)

end

mutual

def Cell.floored : Cell → Cell
  | .dateTime t => .dateTime t.floored
  | .list items => .list (flooredAll items)
  | c => c

def flooredAll : List Cell → List Cell
  | [] => []
  | c :: cs => c.floored :: flooredAll cs

end

theorem flooredAll_eq_map (cs : List Cell) : flooredAll cs = cs.map Cell.floored := by
  induction cs with
  | nil => rfl
  | cons c cs ih => simp [flooredAll, ih]

theorem allInRange_iff {cs : List Cell} : allInRange cs ↔ ∀ c ∈ cs, c.InRange := by
  induction cs with
  | nil => simp [allInRange]
  | cons c cs ih => simp [allInRange, ih]

theorem Written.andThen_error {w : Written} {next : Unit → Written}
    (h : (w.andThen next).error = none) : w.error = none ∧ (next ()).error = none := by
  unfold Written.andThen at h
  split at h
  next e he => simp [he] at h
  next he => exact ⟨he, h⟩

theorem Written.andThen_bytes {w : Written} {next : Unit → Written} (h : w.error = none) :
    (w.andThen next).bytes = w.bytes ++ (next ()).bytes := by
  simp [Written.andThen, h]

theorem yields_number {w n : Nat} (h : n < Nat.pow 256 w) {make : Nat → Cell} {c : Cell}
    (hc : make n = c) : Yields (do return make (← unsigned w)) (Bytes.bigEndian w n) c := by
  subst hc
  exact (yields_unsigned h).map make

theorem yields_string {cs : List Char} (h : (ModifiedUtf8.encode cs).length ≤ maxStringLength) :
    Yields string (Bytes.bigEndian 2 (ModifiedUtf8.encode cs).length ++ ModifiedUtf8.encode cs)
      (.string (String.ofList cs)) := by
  refine (yields_unsigned (Nat.lt_of_le_of_lt h (by decide))).bind (.position fun start => ?_)
  refine (yields_take rfl).last ?_
  rw [ModifiedUtf8.decode_encode]
  exact .pure _

/-- A cell whose tag is followed by what the reader makes the cell of, or in which the reader finds
a list that nests too deep. -/
def ReadsBack (levels : Nat) (c : Cell) : Prop :=
  ∃ body, c.write.bytes = c.tag.toByte :: body ∧
    (c.depth ≤ levels → ∀ pos, Yields (payload levels c.tag pos) body c.floored) ∧
    (levels < c.depth → ∀ pos, TooDeep (payload levels c.tag pos) body)

theorem ReadsBack.leaf {levels : Nat} {c : Cell} {body : List UInt8} (hd : c.depth = 0)
    (hw : c.write.bytes = c.tag.toByte :: body)
    (h : ∀ pos, Yields (payload levels c.tag pos) body c.floored) : ReadsBack levels c :=
  ⟨body, hw, fun _ => h, fun hlt => by omega⟩

def item (levels : Nat) : Read Cell := do
  let pos ← position
  let t ← tag
  payload levels t pos

theorem ReadsBack.yields {levels : Nat} {c : Cell} (h : ReadsBack levels c)
    (hd : c.depth ≤ levels) : Yields (item levels) c.write.bytes c.floored := by
  obtain ⟨body, hw, hy, -⟩ := h
  rw [hw]
  exact .position fun pos => (yields_tag c.tag).bind (hy hd pos)

theorem ReadsBack.tooDeep {levels : Nat} {c : Cell} (h : ReadsBack levels c)
    (hd : levels < c.depth) : TooDeep (item levels) c.write.bytes := by
  obtain ⟨body, hw, -, hy⟩ := h
  rw [hw]
  exact .position fun pos => .after (yields_tag c.tag) (hy hd pos)

theorem writeAll_bytes {cs : List Cell} (h : (writeAll cs).error = none) :
    (∀ c ∈ cs, c.write.error = none) ∧
      (writeAll cs).bytes = cs.flatMap fun c => c.write.bytes := by
  induction cs with
  | nil => exact ⟨by simp, rfl⟩
  | cons c cs ih =>
    rw [writeAll] at h ⊢
    obtain ⟨hc, hcs⟩ := Written.andThen_error h
    obtain ⟨hall, hbytes⟩ := ih hcs
    rw [Written.andThen_bytes hc, hbytes]
    exact ⟨List.forall_mem_cons.mpr ⟨hc, hall⟩, rfl⟩

theorem repeatOnto_succ {α : Type} (r : Read α) (n : Nat) (out : List α) :
    repeatOnto r (n + 1) out = r >>= fun a => repeatOnto r n (a :: out) := rfl

theorem yields_items {levels : Nat} {cs : List Cell} (h : ∀ c ∈ cs, ReadsBack levels c)
    (hd : deepest cs ≤ levels) (out : List Cell) :
    Yields (repeatOnto (item levels) cs.length out) (cs.flatMap fun c => c.write.bytes)
      (out.reverse ++ cs.map Cell.floored) := by
  induction cs generalizing out with
  | nil =>
    rw [List.map_nil, List.append_nil]
    exact .pure out.reverse
  | cons c cs ih =>
    simp only [deepest, Nat.max_le] at hd
    have hmore := ih (fun c hc => h c (List.mem_cons_of_mem _ hc)) hd.2 (c.floored :: out)
    rw [List.length_cons, repeatOnto_succ, List.flatMap_cons]
    refine ((h c List.mem_cons_self).yields hd.1).bind ?_
    simpa using hmore

theorem tooDeep_items {levels : Nat} {cs : List Cell} (h : ∀ c ∈ cs, ReadsBack levels c)
    (hd : levels < deepest cs) (out : List Cell) :
    TooDeep (repeatOnto (item levels) cs.length out) (cs.flatMap fun c => c.write.bytes) := by
  induction cs generalizing out with
  | nil => simp [deepest] at hd
  | cons c cs ih =>
    have hc := h c List.mem_cons_self
    rw [List.length_cons, repeatOnto_succ, List.flatMap_cons]
    by_cases hcd : levels < c.depth
    · exact ((hc.tooDeep hcd).bind _).append _
    · have hdeep : levels < deepest cs := by
        simp only [deepest] at hd
        omega
      exact .after (hc.yields (by omega))
        (ih (fun c hc => h c (List.mem_cons_of_mem _ hc)) hdeep _)

theorem readsBack_raw {bytes : List UInt8} (levels : Nat)
    (hw : (Cell.raw bytes).write.error = none) : ReadsBack levels (.raw bytes) := by
  by_cases hlen : bytes.length ≤ maxCount
  · have hbytes : (Cell.raw bytes).write.bytes =
        Tag.raw.toByte :: (Bytes.bigEndian 4 bytes.length ++ bytes) := by
      simp [Cell.write, encodeRaw, hlen, Written.ofExcept, tagged]
    refine .leaf rfl hbytes fun pos => ?_
    simp only [Cell.tag, payload]
    exact (yields_length hlen pos).bind ((yields_take rfl).map Cell.raw)
  · simp [Cell.write, encodeRaw, hlen, Written.ofExcept] at hw

theorem readsBack_dateTime {t : Instant} (levels : Nat) (hr : t.InRange) :
    ReadsBack levels (.dateTime t) := by
  refine .leaf rfl rfl fun pos => ?_
  have hbounds := Instant.millis_bounds hr
  obtain ⟨n, hn, hy⟩ := yields_millis hbounds.1 hbounds.2
  simp only [Cell.tag, payload]
  refine hy.last ?_
  rw [hn, Instant.ofMillis?_millis hr]
  exact .pure _

theorem readsBack_date {d : Date} (levels : Nat) (hr : d.InRange) :
    ReadsBack levels (.date d) := by
  refine .leaf rfl rfl fun pos => ?_
  have hdate : Date.first.day ≤ d.day ∧ d.day ≤ Date.last.day := hr
  rw [Date.first_day, Date.last_day] at hdate
  obtain ⟨n, hn, hy⟩ : ∃ n : Int64, n.toInt = d.day * millisPerDay ∧
      Yields millis (millisBytes (d.day * millisPerDay)) n :=
    yields_millis (by unfold millisPerDay; omega) (by unfold millisPerDay; omega)
  simp only [Cell.tag, payload]
  refine hy.last ?_
  rw [hn, Int.mul_ediv_cancel _ (by decide), Date.ofDay?_day hr]
  exact .pure _

theorem readsBack_string {s : String} (levels : Nat) (hw : (Cell.string s).write.error = none) :
    ReadsBack levels (.string s) := by
  by_cases hlen : ModifiedUtf8.encodedLength s.toList ≤ maxStringLength
  · have hbytes : (Cell.string s).write.bytes = Tag.string.toByte ::
        (Bytes.bigEndian 2 (ModifiedUtf8.encode s.toList).length ++
          ModifiedUtf8.encode s.toList) := by
      simp [Cell.write, encodeString, hlen, Written.ofExcept, stringPayload, tagged,
        ← ModifiedUtf8.encodedLength_eq]
    rw [ModifiedUtf8.encodedLength_eq] at hlen
    have h := yields_string hlen
    rw [String.ofList_toList] at h
    refine .leaf rfl hbytes fun pos => ?_
    simp only [Cell.tag, payload]
    exact h
  · simp [Cell.write, encodeString, hlen, Written.ofExcept] at hw

theorem readsBack_list {items : List Cell} (levels : Nat)
    (hw : (Cell.list items).write.error = none)
    (h : ∀ levels, ∀ c ∈ items, ReadsBack levels c) : ReadsBack levels (.list items) := by
  rw [Cell.write] at hw
  obtain ⟨hhead, hitems⟩ := Written.andThen_error hw
  by_cases hlen : items.length ≤ maxCount
  · refine ⟨Bytes.bigEndian 4 items.length ++ items.flatMap fun c => c.write.bytes, ?_, ?_, ?_⟩
    · rw [Cell.write, Written.andThen_bytes hhead, (writeAll_bytes hitems).2]
      simp [encodeListHead, hlen, Written.ofExcept, tagged, Cell.tag]
    · intro hd pos
      cases levels with
      | zero => simp [Cell.depth] at hd
      | succ levels =>
        have hy := yields_items (h levels) (Nat.le_of_succ_le_succ hd) []
        rw [Cell.floored, flooredAll_eq_map]
        simp only [Cell.tag, payload]
        exact (yields_length hlen pos).bind (hy.map Cell.list)
    · intro hd pos
      cases levels with
      | zero => exact fun pos' rest => ⟨pos, _, rfl⟩
      | succ levels =>
        have hy := tooDeep_items (h levels) (Nat.lt_of_succ_lt_succ hd) []
        simp only [Cell.tag, payload]
        exact .after (yields_length hlen pos) (hy.bind _)
  · simp [encodeListHead, hlen, Written.ofExcept] at hhead

mutual

theorem Cell.readsBack :
    (c : Cell) → (levels : Nat) → c.InRange → c.write.error = none → ReadsBack levels c
  | .raw _, levels, _, hw => readsBack_raw levels hw
  | .dateTime _, levels, hr, _ => readsBack_dateTime levels hr
  | .date _, levels, hr, _ => readsBack_date levels hr
  | .bool b, levels, _, _ => .leaf rfl rfl fun _ => by
    simp only [Cell.tag, payload]
    have h := (yields_byte (if b then 1 else 0)).map fun n => Cell.bool (n != 0)
    cases b <;> exact h
  | .byte n, levels, _, _ => .leaf rfl rfl fun _ => by
    simp only [Cell.tag, payload]
    rw [← Bytes.bigEndian_one]
    exact yields_number (UInt8.toNat_lt _) (by simp [Nat.toUInt8, Cell.floored])
  | .short n, levels, _, _ => .leaf rfl rfl fun _ => by
    simp only [Cell.tag, payload]
    exact yields_number (UInt16.toNat_lt _) (by simp [Nat.toUInt16, Cell.floored])
  | .int n, levels, _, _ => .leaf rfl rfl fun _ => by
    simp only [Cell.tag, payload]
    exact yields_number (UInt32.toNat_lt _) (by simp [Nat.toUInt32, Cell.floored])
  | .long n, levels, _, _ => .leaf rfl rfl fun _ => by
    simp only [Cell.tag, payload]
    exact yields_number (UInt64.toNat_lt _) (by simp [Nat.toUInt64, Cell.floored])
  | .float x, levels, _, _ => .leaf rfl rfl fun _ => by
    simp only [Cell.tag, payload]
    exact yields_number (UInt32.toNat_lt _) (by simp [Nat.toUInt32, Cell.floored])
  | .double x, levels, _, _ => .leaf rfl rfl fun _ => by
    simp only [Cell.tag, payload]
    exact yields_number (UInt64.toNat_lt _) (by simp [Nat.toUInt64, Cell.floored])
  | .string _, levels, _, hw => readsBack_string levels hw
  | .list items, levels, hr, hw =>
    readsBack_list levels hw fun levels =>
      readsBack_all items levels hr (Written.andThen_error hw).2

theorem readsBack_all : (cs : List Cell) → (levels : Nat) → allInRange cs →
    (writeAll cs).error = none → ∀ c ∈ cs, ReadsBack levels c
  | [], _, _, _ => by simp
  | c :: cs, levels, hr, hw => by
    rw [writeAll] at hw
    obtain ⟨hc, hcs⟩ := Written.andThen_error hw
    exact List.forall_mem_cons.mpr
      ⟨c.readsBack levels hr.1 hc, readsBack_all cs levels hr.2 hcs⟩

end

/-- What bounds the readers of rows and buffers: whatever is written takes a byte. -/
theorem length_le_flatMap {α : Type} {f : α → List UInt8} {xs : List α} (h : ∀ x ∈ xs, f x ≠ []) :
    xs.length ≤ (xs.flatMap f).length := by
  induction xs with
  | nil => simp
  | cons x xs ih =>
    have hx := List.length_pos_iff.mpr (h x List.mem_cons_self)
    have hxs := ih fun x hx => h x (List.mem_cons_of_mem _ hx)
    rw [List.flatMap_cons, List.length_append, List.length_cons]
    omega

theorem ReadsBack.bytes_ne_nil {levels : Nat} {c : Cell} (h : ReadsBack levels c) :
    c.write.bytes ≠ [] := by
  obtain ⟨body, hw, -⟩ := h
  simp [hw]

theorem nextItem_of_ne_nil {bytes : List UInt8} (h : bytes ≠ []) (pos : Nat) :
    nextItem ⟨pos, bytes⟩ =
      (position >>= fun pos => tag >>= fun t =>
        if t = .endOfRecord then Pure.pure (some Item.endOfRecord)
        else do return some (.cell (← payload maxListDepth t pos)) : Read (Option Item))
        ⟨pos, bytes⟩ := by
  simp only [nextItem, List.isEmpty_iff, h, if_false]

theorem Cell.tag_ne_endOfRecord (c : Cell) : c.tag ≠ .endOfRecord := by
  cases c <;> simp [Cell.tag]

theorem ReadsBack.yields_nextItem {c : Cell} (h : ReadsBack maxListDepth c)
    (hd : c.depth ≤ maxListDepth) : Yields nextItem c.write.bytes (some (.cell c.floored)) := by
  obtain ⟨body, hw, hy, -⟩ := h
  intro pos rest
  rw [hw, nextItem_of_ne_nil (by simp)]
  refine Yields.position (fun pos => (yields_tag c.tag).bind ?_) pos rest
  rw [if_neg c.tag_ne_endOfRecord]
  exact (hy hd pos).map fun c => some (Item.cell c)

theorem ReadsBack.tooDeep_nextItem {c : Cell} (h : ReadsBack maxListDepth c)
    (hd : maxListDepth < c.depth) : TooDeep nextItem c.write.bytes := by
  obtain ⟨body, hw, -, hy⟩ := h
  intro pos rest
  rw [hw, nextItem_of_ne_nil (by simp)]
  refine TooDeep.position (fun pos => .after (yields_tag c.tag) ?_) pos rest
  rw [if_neg c.tag_ne_endOfRecord]
  exact (hy hd pos).bind _

theorem yields_nextItem_end : Yields nextItem endOfRecord (some .endOfRecord) := by
  intro pos rest
  rw [nextItem_of_ne_nil (by simp [endOfRecord, tagged])]
  refine Yields.position (fun pos => (yields_tag .endOfRecord).last ?_) pos rest
  rw [if_pos rfl]
  exact .pure _

theorem cellsOnto_succ (start bound : Nat) (out : List Cell) :
    cellsOnto start (bound + 1) out = nextItem >>= fun
      | some (.cell v) => cellsOnto start bound (v :: out)
      | some .endOfRecord => Pure.pure out.reverse
      | none => fail (.unterminatedRecord start) := by
  funext c
  rw [bind_apply, cellsOnto]
  dsimp only
  generalize nextItem c = r
  rcases r with ⟨_ | _ | _ | _, c⟩ <;> rfl

theorem yields_cells {row : Row} (h : ∀ c ∈ row, ReadsBack maxListDepth c)
    (hd : ∀ c ∈ row, c.depth ≤ maxListDepth) (start : Nat) {bound : Nat} (hb : row.length < bound)
    (out : List Cell) :
    Yields (cellsOnto start bound out) ((row.flatMap fun c => c.write.bytes) ++ endOfRecord)
      (out.reverse ++ row.map Cell.floored) := by
  induction row generalizing bound out with
  | nil =>
    obtain ⟨bound, rfl⟩ := Nat.exists_eq_add_one_of_ne_zero (Nat.ne_zero_of_lt hb)
    rw [cellsOnto_succ, List.flatMap_nil, List.nil_append, List.map_nil, List.append_nil]
    exact yields_nextItem_end.last (.pure _)
  | cons c row ih =>
    obtain ⟨bound, rfl⟩ := Nat.exists_eq_add_one_of_ne_zero (Nat.ne_zero_of_lt hb)
    have hmore := ih (fun c hc => h c (List.mem_cons_of_mem _ hc))
      (fun c hc => hd c (List.mem_cons_of_mem _ hc)) (by simpa using hb) (c.floored :: out)
    rw [cellsOnto_succ, List.flatMap_cons, List.append_assoc]
    refine ((h c List.mem_cons_self).yields_nextItem (hd c List.mem_cons_self)).bind ?_
    simpa using hmore

theorem tooDeep_cells {row : Row} (h : ∀ c ∈ row, ReadsBack maxListDepth c)
    (hd : ∃ c ∈ row, maxListDepth < c.depth) (start : Nat) {bound : Nat} (hb : row.length < bound)
    (out : List Cell) :
    TooDeep (cellsOnto start bound out) (row.flatMap fun c => c.write.bytes) := by
  induction row generalizing bound out with
  | nil => simp at hd
  | cons c row ih =>
    obtain ⟨bound, rfl⟩ := Nat.exists_eq_add_one_of_ne_zero (Nat.ne_zero_of_lt hb)
    have hc := h c List.mem_cons_self
    rw [cellsOnto_succ, List.flatMap_cons]
    by_cases hcd : maxListDepth < c.depth
    · exact ((hc.tooDeep_nextItem hcd).bind _).append _
    · simp only [List.mem_cons, exists_eq_or_imp] at hd
      have hrow := hd.resolve_left hcd
      exact .after (hc.yields_nextItem (by omega))
        (ih (fun c hc => h c (List.mem_cons_of_mem _ hc)) hrow (by simpa using hb) _)

theorem writeRow_bytes {row : Row} (h : (writeRow row).error = none) :
    (writeAll row).error = none ∧
      (writeRow row).bytes = (row.flatMap fun c => c.write.bytes) ++ endOfRecord := by
  obtain ⟨hall, -⟩ := Written.andThen_error h
  rw [writeRow, Written.andThen_bytes hall, (writeAll_bytes hall).2]
  exact ⟨hall, rfl⟩

theorem row_of_ne_nil {bytes : List UInt8} (h : bytes ≠ []) (pos : Nat) :
    Read.row ⟨pos, bytes⟩ =
      (do return some (← cellsOnto pos (bytes.length + 1) []) : Read (Option Row))
        ⟨pos, bytes⟩ := by
  simp only [Read.row, List.isEmpty_iff, h, if_false]

theorem yields_row {row : Row} (hr : allInRange row) (hw : (writeRow row).error = none)
    (hd : ∀ c ∈ row, c.depth ≤ maxListDepth) :
    Yields Read.row (writeRow row).bytes (some (row.map Cell.floored)) := by
  obtain ⟨hall, hbytes⟩ := writeRow_bytes hw
  have hback := readsBack_all row maxListDepth hr hall
  have hlen := length_le_flatMap fun c hc => (hback c hc).bytes_ne_nil
  intro pos rest
  rw [hbytes, row_of_ne_nil (by simp [endOfRecord, tagged])]
  refine ((yields_cells hback hd pos ?_ []).map some) pos rest
  simp only [List.length_append]
  omega

theorem tooDeep_row {row : Row} (hr : allInRange row) (hw : (writeRow row).error = none)
    (hd : ∃ c ∈ row, maxListDepth < c.depth) : TooDeep Read.row (writeRow row).bytes := by
  obtain ⟨hall, hbytes⟩ := writeRow_bytes hw
  have hback := readsBack_all row maxListDepth hr hall
  have hlen := length_le_flatMap fun c hc => (hback c hc).bytes_ne_nil
  intro pos rest
  rw [hbytes, row_of_ne_nil (by simp [endOfRecord, tagged])]
  refine (((tooDeep_cells hback hd pos ?_ []).append endOfRecord).bind _) pos rest
  simp only [List.length_append]
  omega

theorem rowsWithin_yields {bytes : List UInt8} {row : Row} (h : Yields Read.row bytes (some row))
    (bound pos : Nat) (rest : List UInt8) :
    Cursor.rowsWithin (bound + 1) ⟨pos, bytes ++ rest⟩ =
      .ok row :: Cursor.rowsWithin bound ⟨pos + bytes.length, rest⟩ := by
  rw [Cursor.rowsWithin, h]

theorem rowsWithin_tooDeep {bytes : List UInt8} (h : TooDeep Read.row bytes) (bound pos : Nat)
    (rest : List UInt8) : ∃ place,
      Cursor.rowsWithin (bound + 1) ⟨pos, bytes ++ rest⟩ = [.error (.nestingTooDeep place)] := by
  obtain ⟨place, c, h⟩ := h pos rest
  exact ⟨place, by rw [Cursor.rowsWithin, h]⟩

theorem rowsWithin_written {rows : List Row}
    (h : ∀ row ∈ rows, Yields Read.row (writeRow row).bytes (some (row.map Cell.floored)))
    {bound : Nat} (hb : rows.length < bound) (pos : Nat) :
    Cursor.rowsWithin bound ⟨pos, rows.flatMap fun row => (writeRow row).bytes⟩ =
      (rows.map fun row => row.map Cell.floored).map .ok := by
  induction rows generalizing bound pos with
  | nil =>
    cases bound with
    | zero => rfl
    | succ bound => rfl
  | cons row rows ih =>
    obtain ⟨bound, rfl⟩ := Nat.exists_eq_add_one_of_ne_zero (Nat.ne_zero_of_lt hb)
    rw [List.flatMap_cons, rowsWithin_yields (h row List.mem_cons_self)]
    rw [ih (fun row hrow => h row (List.mem_cons_of_mem _ hrow)) (by simpa using hb)]
    rfl

theorem rowsWithin_stopped {rows : List Row} (hr : ∀ row ∈ rows, allInRange row)
    (hw : ∀ row ∈ rows, (writeRow row).error = none)
    (hd : ∃ row ∈ rows, ∃ c ∈ row, maxListDepth < c.depth)
    {bound : Nat} (hb : rows.length < bound) (pos : Nat) :
    ∃ (before : List Row) (place : Nat),
      Cursor.rowsWithin bound ⟨pos, rows.flatMap fun row => (writeRow row).bytes⟩ =
        before.map .ok ++ [.error (.nestingTooDeep place)] := by
  induction rows generalizing bound pos with
  | nil => simp at hd
  | cons row rows ih =>
    obtain ⟨bound, rfl⟩ := Nat.exists_eq_add_one_of_ne_zero (Nat.ne_zero_of_lt hb)
    have hr' := hr row List.mem_cons_self
    have hw' := hw row List.mem_cons_self
    rw [List.flatMap_cons]
    by_cases hrow : ∃ c ∈ row, maxListDepth < c.depth
    · obtain ⟨place, h⟩ := rowsWithin_tooDeep (tooDeep_row hr' hw' hrow) bound pos _
      exact ⟨[], place, h⟩
    · have hshallow : ∀ c ∈ row, c.depth ≤ maxListDepth :=
        fun c hc => Nat.le_of_not_lt fun hlt => hrow ⟨c, hc, hlt⟩
      simp only [List.mem_cons, exists_eq_or_imp] at hd
      have hrows := hd.resolve_left hrow
      rw [rowsWithin_yields (yields_row hr' hw' hshallow)]
      obtain ⟨before, place, h⟩ := ih (fun row hrow => hr row (List.mem_cons_of_mem _ hrow))
        (fun row hrow => hw row (List.mem_cons_of_mem _ hrow)) hrows (by simpa using hb)
        (pos + (writeRow row).bytes.length)
      exact ⟨row.map Cell.floored :: before, place, by rw [h]; rfl⟩

theorem mapM_id_ok {ε α : Type} (xs : List α) :
    (xs.map Except.ok).mapM id = (.ok xs : Except ε (List α)) := by
  induction xs with
  | nil => rfl
  | cons x xs ih =>
    rw [List.map_cons, List.mapM_cons, ih]
    rfl

theorem mapM_id_error {ε α : Type} (xs : List α) (e : ε) :
    (xs.map Except.ok ++ [Except.error e]).mapM id = (.error e : Except ε (List α)) := by
  induction xs with
  | nil => rfl
  | cons x xs ih =>
    rw [List.map_cons, List.cons_append, List.mapM_cons, ih]
    rfl

/-- Rows that can be written come back as they were, with their times cut to milliseconds; where a
list nests too deep for the reader, reading fails for that reason. A single cell is read without a
look at what follows it. -/
theorem decodeRows_written (rows : List Row) (hr : ∀ row ∈ rows, ∀ c ∈ row, c.InRange)
    (hw : ∀ row ∈ rows, (writeRow row).error = none) :
    ((∀ row ∈ rows, ∀ c ∈ row, c.depth ≤ maxListDepth) →
      decodeRows (rows.flatMap fun row => (writeRow row).bytes) =
        .ok (rows.map fun row => row.map Cell.floored)) ∧
    ((∃ row ∈ rows, ∃ c ∈ row, maxListDepth < c.depth) →
      ∃ place, decodeRows (rows.flatMap fun row => (writeRow row).bytes) =
        .error (.nestingTooDeep place)) ∧
    ∀ c : Cell, c.InRange → c.write.error = none → c.depth ≤ maxListDepth → ∀ rest,
      Read.cell (Cursor.ofBytes (c.write.bytes ++ rest)) =
        (.ok c.floored, ⟨c.write.bytes.length, rest⟩) := by
  have hr' : ∀ row ∈ rows, allInRange row := fun row hrow => allInRange_iff.mpr (hr row hrow)
  have hlen : rows.length < (rows.flatMap fun row => (writeRow row).bytes).length + 1 := by
    refine Nat.lt_succ_of_le (length_le_flatMap fun row hrow => ?_)
    rw [(writeRow_bytes (hw row hrow)).2]
    simp [endOfRecord, tagged]
  refine ⟨fun hd => ?_, fun hd => ?_, fun c hc hcw hcd rest => ?_⟩
  · have hyields := fun row hrow => yields_row (hr' row hrow) (hw row hrow) (hd row hrow)
    rw [decodeRows, Cursor.rows, Cursor.ofBytes, rowsWithin_written hyields hlen, mapM_id_ok]
  · obtain ⟨before, place, h⟩ := rowsWithin_stopped hr' hw hd hlen 0
    refine ⟨place, ?_⟩
    rw [decodeRows, Cursor.rows, Cursor.ofBytes, h, mapM_id_error]
  · have h := (c.readsBack maxListDepth hc hcw).yields hcd 0 rest
    rw [Nat.zero_add] at h
    exact h

def ledger : List Row :=
  [[.list [.dateTime ⟨-1, 999999999⟩, .string "é"], .double ⟨0x7ff8000000000001⟩], []]

def nested : Nat → Cell
  | 0 => .list []
  | n + 1 => .list [nested n]

theorem decodeRows_ledger :
    decodeRows (ledger.flatMap fun row => (writeRow row).bytes) =
      .ok [[.list [.dateTime ⟨-1, 999000000⟩, .string "é"], .double ⟨0x7ff8000000000001⟩], []] ∧
    ∃ place, decodeRows (([[nested 64]] : List Row).flatMap fun row => (writeRow row).bytes) =
      .error (.nestingTooDeep place) := by
  constructor
  · refine (decodeRows_written ledger ?_ ?_).1 ?_
    · simp [ledger, Cell.InRange, allInRange, Instant.InRange, Date.InRange, Date.first_day,
        Date.last_day, Instant.date]
    · decide +kernel
    · simp [ledger, Cell.depth, deepest, maxListDepth]
  · refine (decodeRows_written [[nested 64]] ?_ ?_).2.1 ⟨_, .head _, _, .head _, ?_⟩
    · simp [nested, Cell.InRange, allInRange]
    · decide +kernel
    · decide +kernel

end Wire

end PathTemplate
