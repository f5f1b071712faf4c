import PathTemplate.Proofs.Wire.Image
import PathTemplate.Proofs.Wire.Streaming

/-!
Buffers that were cut off. Rows that were written are read up to the last one that is there as a
whole; what is left of the next one is reported as an end of the buffer in the wrong place, and never
taken for a row or for some other fault.
-/

namespace PathTemplate.Wire

open Calendar

mutual

/-- The cell with its times moved back to where their milliseconds began. -/
def Cell.wholeMillis : Cell → Cell
  | .dateTime t => .dateTime t.wholeMillis
  | .list items => .list (allWholeMillis items)
  | c => c

def allWholeMillis : List Cell → List Cell
  | [] => []
  | c :: cs => c.wholeMillis :: allWholeMillis cs

end

theorem allWholeMillis_eq_map (cs : List Cell) : allWholeMillis cs = cs.map Cell.wholeMillis := by
  induction cs with
  | nil => rfl
  | cons c cs ih => rw [allWholeMillis, ih, List.map_cons]

mutual

theorem Cell.write_wholeMillis (c : Cell) : c.wholeMillis.write = c.write := by
  cases c with
  | dateTime t =>
    simp only [Cell.wholeMillis, Cell.write, encodeDateTime, t.millis_wholeMillis]
  | list items =>
    simp only [Cell.wholeMillis, Cell.write, writeAll_wholeMillis items]
    rw [allWholeMillis_eq_map, List.length_map]
  | _ => rfl

theorem writeAll_wholeMillis (cs : List Cell) : writeAll (allWholeMillis cs) = writeAll cs := by
  cases cs with
  | nil => rfl
  | cons c cs =>
    simp only [allWholeMillis, writeAll, c.write_wholeMillis, writeAll_wholeMillis cs]

end

mutual

theorem Cell.depth_wholeMillis (c : Cell) : c.wholeMillis.depth = c.depth := by
  cases c with
  | list items => simp only [Cell.wholeMillis, Cell.depth, deepest_wholeMillis]
  | _ => rfl

theorem deepest_wholeMillis (cs : List Cell) : deepest (allWholeMillis cs) = deepest cs := by
  cases cs with
  | nil => rfl
  | cons c cs =>
    simp only [allWholeMillis, deepest, c.depth_wholeMillis, deepest_wholeMillis cs]

end

mutual

theorem Cell.floored_wholeMillis (c : Cell) : c.wholeMillis.floored = c.wholeMillis := by
  cases c with
  | dateTime t => simp only [Cell.wholeMillis, Cell.floored, t.floored_wholeMillis]
  | list items => simp only [Cell.wholeMillis, Cell.floored, flooredAll_wholeMillis]
  | _ => rfl

theorem flooredAll_wholeMillis (cs : List Cell) :
    flooredAll (allWholeMillis cs) = allWholeMillis cs := by
  cases cs with
  | nil => rfl
  | cons c cs =>
    simp only [allWholeMillis, flooredAll, c.floored_wholeMillis, flooredAll_wholeMillis cs]

end

/-- The bytes of rows, one after the other. -/
def written (rows : List Row) : List UInt8 := rows.flatMap fun row => (writeRow row).bytes

theorem written_cons (row : Row) (rows : List Row) :
    written (row :: rows) = (writeRow row).bytes ++ written rows := rfl

def Row.wholeMillis (row : Row) : Row := row.map Cell.wholeMillis

/-- A row that can be written and read back: its lists do not nest too deep, and the calendar covers
the milliseconds of its times. -/
structure Row.Writable (row : Row) : Prop where
  write : (writeRow row).error = none
  depth : ∀ c ∈ row, c.depth ≤ maxListDepth
  inRange : ∀ c ∈ row, c.wholeMillis.InRange

theorem Row.Writable.rowAt {row : Row} (h : row.Writable) (pos : Nat) :
    RowAt pos (writeRow row).bytes row.wholeMillis := by
  have hwrite : writeRow row.wholeMillis = writeRow row := by
    rw [writeRow, writeRow, Row.wholeMillis, ← allWholeMillis_eq_map, writeAll_wholeMillis]
  have hback : row.wholeMillis.map Cell.floored = row.wholeMillis := by
    simp only [Row.wholeMillis, List.map_map, List.map_inj_left, Function.comp_apply]
    exact fun c _ => c.floored_wholeMillis
  have hyields : Yields Read.row (writeRow row).bytes (some row.wholeMillis) := by
    have hy : Yields Read.row (writeRow row.wholeMillis).bytes _ :=
      yields_row (allInRange_iff.mpr (List.forall_mem_map.mpr h.inRange)) (hwrite ▸ h.write)
        (List.forall_mem_map.mpr fun c hc => c.depth_wholeMillis ▸ h.depth c hc)
    rwa [hwrite, hback] at hy
  obtain ⟨bytes, hc, hrow⟩ := row_streams (hyields pos [])
  obtain rfl := List.append_cancel_right hc
  exact hrow

theorem rows_written {rows : List Row} (h : ∀ row ∈ rows, row.Writable) (pos : Nat) :
    Cursor.rows ⟨pos, written rows⟩ = (rows.map Row.wholeMillis).map .ok := by
  induction rows generalizing pos with
  | nil => rfl
  | cons row rows ih =>
    obtain ⟨hrow, hrows⟩ := List.forall_mem_cons.mp h
    rw [written_cons, rows_cons (hrow.rowAt pos), ih hrows]
    rfl

theorem rows_cut {rows : List Row} (h : ∀ row ∈ rows, row.Writable) {p : List UInt8}
    (hp : p <+: written rows) (hcut : ∀ k, p ≠ written (rows.take k)) (pos : Nat) :
    ∃ k < rows.length, written (rows.take k) <+: p ∧ ¬written (rows.take (k + 1)) <+: p ∧
      ∃ e : DecodeError, e.isCut ∧ Cursor.rows ⟨pos, p⟩ =
        ((rows.take k).map Row.wholeMillis).map .ok ++ [.error e] := by
  induction rows generalizing p pos with
  | nil => exact absurd (List.prefix_nil.mp hp) (hcut 0)
  | cons row rows ih =>
    obtain ⟨hrow, hrows⟩ := List.forall_mem_cons.mp h
    by_cases hfirst : (writeRow row).bytes <+: p
    · obtain ⟨p, rfl⟩ := hfirst
      obtain ⟨k, hk, hwhole, hpart, e, he, hread⟩ := ih hrows
        ((List.prefix_append_right_inj _).mp hp) (fun k heq => hcut (k + 1) (by rw [heq]; rfl))
        (pos + (writeRow row).bytes.length)
      refine ⟨k + 1, by simpa using hk, ?_, ?_, e, he, ?_⟩
      · exact (List.prefix_append_right_inj _).mpr hwhole
      · exact fun hpre => hpart ((List.prefix_append_right_inj _).mp hpre)
      · rw [rows_cons (hrow.rowAt pos), hread]
        rfl
    · have hpre : p <+: (writeRow row).bytes :=
        (List.prefix_or_prefix_of_prefix hp (List.prefix_append _ _)).resolve_right hfirst
      obtain ⟨e, he, c, hshort⟩ := (hrow.rowAt pos).short p (hcut 0) hpre
        fun heq => hfirst (heq ▸ List.prefix_refl _)
      refine ⟨0, by simp, List.nil_prefix, ?_, e, he, rows_error hshort⟩
      simpa [written] using hfirst

/-- What is read of the first bytes of rows that were written. Cut between rows, they are the rows
before the cut; cut within a row, they are the rows before that one and then an error, which says that
the buffer ended too early, and nothing after it. -/
theorem decodeRows_cut {rows : List Row} (h : ∀ row ∈ rows, row.Writable) {p : List UInt8}
    (hp : p <+: written rows) :
    (∀ k, p = written (rows.take k) →
      decodeRows p = .ok ((rows.take k).map Row.wholeMillis) ∧
      (Cursor.ofBytes p).rows = ((rows.take k).map Row.wholeMillis).map .ok) ∧
    ((∀ k, p ≠ written (rows.take k)) → ∃ k < rows.length,
      written (rows.take k) <+: p ∧ ¬written (rows.take (k + 1)) <+: p ∧
      ∃ e : DecodeError, e.isCut ∧ decodeRows p = .error e ∧
        (Cursor.ofBytes p).rows = ((rows.take k).map Row.wholeMillis).map .ok ++ [.error e]) := by
  refine ⟨?_, fun hcut => ?_⟩
  · rintro k rfl
    have hread : Cursor.rows ⟨0, written (rows.take k)⟩ = _ :=
      rows_written (fun row hrow => h row (List.mem_of_mem_take hrow)) 0
    exact ⟨mapM_id_eq_ok.mpr hread, hread⟩
  · obtain ⟨k, hk, hwhole, hpart, e, he, hread⟩ := rows_cut h hp hcut 0
    refine ⟨k, hk, hwhole, hpart, e, he, ?_, hread⟩
    rw [decodeRows, Cursor.ofBytes, hread, mapM_id_error]

def shortRows : List Row := [[.bool true], [.list [.string "é"], .dateTime ⟨-1, 999999999⟩]]

theorem decodeRows_cut_shortRows :
    (∀ row ∈ shortRows, row.Writable) ∧
    decodeRows (written (shortRows.take 1)) = .ok [[.bool true]] ∧
    ∃ k < 2, written (shortRows.take k) <+: (written shortRows).take 12 ∧
      ¬written (shortRows.take (k + 1)) <+: (written shortRows).take 12 ∧
      ∃ e : DecodeError, e.isCut ∧ decodeRows ((written shortRows).take 12) = .error e ∧
        (Cursor.ofBytes ((written shortRows).take 12)).rows =
          ((shortRows.take k).map Row.wholeMillis).map .ok ++ [.error e] := by
  have hw : ∀ row ∈ shortRows, row.Writable := by
    intro row hrow
    simp only [shortRows, List.mem_cons, List.not_mem_nil, or_false] at hrow
    have htime : (Calendar.Instant.mk (-1) 999999999).wholeMillis.InRange :=
      Calendar.Instant.inRange_wholeMillis (by decide +kernel)
    rcases hrow with rfl | rfl
    · exact ⟨rfl, by decide, by simp [Cell.wholeMillis, Cell.InRange]⟩
    · refine ⟨rfl, by decide, ?_⟩
      simpa [Cell.wholeMillis, allWholeMillis, Cell.InRange, allInRange] using htime
  refine ⟨hw, ((decodeRows_cut hw (p := written (shortRows.take 1)) ?_).1 1 rfl).1, ?_⟩
  · exact ⟨written (shortRows.drop 1), rfl⟩
  · refine (decodeRows_cut hw (List.take_prefix 12 _)).2 fun k => ?_
    rcases k with _ | _ | k
    · decide
    · decide
    · rw [List.take_of_length_le (show shortRows.length ≤ k + 2 by simp [shortRows])]
      decide

/-- Times lose what is below a millisecond, also in a row that is there as a whole, and the last leap
second cannot be read at all. -/
theorem decodeRows_cut_inexact :
    (¬ ∀ (rows : List Row) (p : List UInt8) (k : Nat),
      (∀ row ∈ rows, (writeRow row).error = none) →
      (∀ row ∈ rows, ∀ c ∈ row, c.depth ≤ maxListDepth ∧ c.InRange) →
      p <+: written rows → p ≠ written rows → p = written (rows.take k) →
      decodeRows p = .ok (rows.take k)) ∧
    Instant.lastLeap.date = .last ∧ Instant.lastLeap.second = 60 ∧
    (writeRow [.dateTime .lastLeap]).error = none ∧
    decodeRows (written ([[.dateTime .lastLeap], []].take 1)) =
      .error (.dateTimeOutOfRange 0 8210266876800999) := by
  refine ⟨fun h => ?_, by decide +kernel, by decide +kernel, rfl, rfl⟩
  have hread : decodeRows (written [[.dateTime ⟨0, 1⟩]]) = .ok [[.dateTime ⟨0, 0⟩]] := rfl
  have hrange : (Cell.dateTime ⟨0, 1⟩).depth ≤ maxListDepth ∧ (Cell.dateTime ⟨0, 1⟩).InRange := by
    simp [Cell.depth, Cell.InRange, Calendar.Instant.InRange, Calendar.Date.InRange,
      Calendar.Date.first_day, Calendar.Date.last_day, Calendar.Instant.date]
  have hclaim := h [[.dateTime ⟨0, 1⟩], []] (written [[.dateTime ⟨0, 1⟩]]) 1 (by decide)
    (by simpa using hrange) ⟨endOfRecord, rfl⟩ (by decide) rfl
  rw [hread] at hclaim
  simp at hclaim

end PathTemplate.Wire
