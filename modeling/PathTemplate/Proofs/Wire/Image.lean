import Mathlib.Data.List.Basic
import Mathlib.Data.Nat.Find
import PathTemplate.Proofs.Value.Conformance
import PathTemplate.Proofs.Wire.RoundTrip
import PathTemplate.Sink.Binary
import PathTemplate.Wire.Image

namespace PathTemplate

open Calendar

namespace Calendar.Instant

/-- The instant at which the millisecond of another began. -/
def wholeMillis (t : Instant) : Instant := ⟨t.millis / 1000, (t.millis % 1000).toNat * 1000000⟩

theorem millis_wholeMillis (t : Instant) : t.wholeMillis.millis = t.millis := by
  simp only [wholeMillis, millis]
  omega

theorem floored_wholeMillis (t : Instant) : t.wholeMillis.floored = t.wholeMillis := by
  simp [wholeMillis, floored]

def millisDate (t : Instant) : Date := ⟨t.millis / 86400000⟩

theorem inRange_wholeMillis {t : Instant} (h : t.millisDate.InRange) : t.wholeMillis.InRange := by
  refine ⟨?_, ?_⟩
  · have hdate : t.wholeMillis.date = t.millisDate := by
      simp only [date, wholeMillis, millisDate, Date.mk.injEq]
      omega
    rwa [hdate]
  · simp only [wholeMillis]
    omega

/-- The end of the last leap second there is. The calendar has no date for its milliseconds. -/
def lastLeap : Instant := ⟨8210266876799, 1999999999⟩

end Calendar.Instant

instance (d : Date) : Decidable d.InRange :=
  inferInstanceAs (Decidable (Date.first.day ≤ d.day ∧ d.day ≤ Date.last.day))

theorem Value.eq_null_of_isNull {ρ : Type} {v : Value ρ} (h : v.isNull) : v = .null := by
  cases v <;> simp_all [isNull]

/-- Whether payloads and lists in the value fit their length fields, lists nest at most so deep, and
the calendar covers all times. -/
def Value.isWithin {ρ : Type} : (levels : Nat) → Value ρ → Bool
  | _, .bytes b => b.length ≤ Wire.maxCount
  | _, .dateTime t => t.millisDate.InRange
  | _, .date d => d.InRange
  | 0, .list _ => false
  | levels + 1, .list items => items.length ≤ Wire.maxCount && items.all (isWithin levels)
  | _, _ => true

/-- Whether the value is within the limits of the format as it is written: nulls, for which nothing
is written, do not count. -/
def Value.isStorable {ρ : Type} : (levels : Nat) → Value ρ → Bool
  | _, .bytes b => b.length ≤ Wire.maxCount
  | _, .dateTime t => t.millisDate.InRange
  | _, .date d => d.InRange
  | 0, .list _ => false
  | levels + 1, .list items =>
    (items.countP fun v => !v.isNull) ≤ Wire.maxCount && items.all (isStorable levels)
  | _, _ => true

theorem Value.isStorable_of_isWithin {ρ : Type} {levels : Nat} {v : Value ρ}
    (h : v.isWithin levels) : v.isStorable levels := by
  induction levels generalizing v with
  | zero => cases v <;> exact h
  | succ levels ih =>
    cases v with
    | list items =>
      simp only [isWithin, Bool.and_eq_true, decide_eq_true_eq, List.all_eq_true] at h
      simp only [isStorable, Bool.and_eq_true, decide_eq_true_eq, List.all_eq_true]
      exact ⟨Nat.le_trans List.countP_le_length h.1, fun v hv => ih (h.2 v hv)⟩
    | _ => exact h

namespace Wire

theorem encodedLength_cons (c : Char) (cs : List Char) : ModifiedUtf8.encodedLength (c :: cs) =
    ModifiedUtf8.charWidth c + ModifiedUtf8.encodedLength cs := by
  simp [ModifiedUtf8.encodedLength_eq, ModifiedUtf8.encode, ModifiedUtf8.encodeChar_length]

theorem fittingOnto_eq (out : List Char) (room : Nat) (cs : List Char) :
    ∃ n ≤ cs.length, fittingOnto out room cs = out.reverse ++ cs.take n ∧
      ModifiedUtf8.encodedLength (cs.take n) ≤ room ∧
      ∀ m, n < m → m ≤ cs.length → room < ModifiedUtf8.encodedLength (cs.take m) := by
  induction cs generalizing out room with
  | nil => exact ⟨0, by simp [fittingOnto, ModifiedUtf8.encodedLength]; omega⟩
  | cons c cs ih =>
    by_cases hc : ModifiedUtf8.charWidth c ≤ room
    · obtain ⟨n, hn, heq, hfit, hmore⟩ := ih (c :: out) (room - ModifiedUtf8.charWidth c)
      refine ⟨n + 1, by simpa using hn, ?_, ?_, fun m hm hlen => ?_⟩
      · simp [fittingOnto, hc, heq]
      · rw [List.take_succ_cons, encodedLength_cons]
        omega
      · obtain ⟨m, rfl⟩ := Nat.exists_eq_add_one_of_ne_zero (Nat.ne_zero_of_lt hm)
        have hover := hmore m (by omega) (by simpa using hlen)
        rw [List.take_succ_cons, encodedLength_cons]
        omega
    · refine ⟨0, Nat.zero_le _, by simp [fittingOnto, hc], Nat.zero_le _, fun m hm _ => ?_⟩
      obtain ⟨m, rfl⟩ := Nat.exists_eq_add_one_of_ne_zero (Nat.ne_zero_of_lt hm)
      rw [List.take_succ_cons, encodedLength_cons]
      omega

/-- The longest start of a text whose encoded form fits its length field. -/
def cut (s : String) : String :=
  .ofList (s.toList.take (Nat.findGreatest
    (fun n => ModifiedUtf8.encodedLength (s.toList.take n) ≤ maxStringLength) s.toList.length))

theorem fitting_eq_cut (s : String) : fitting s.toList = (cut s).toList := by
  obtain ⟨n, hn, heq, hfit, hmore⟩ := fittingOnto_eq [] maxStringLength s.toList
  have hgreatest : Nat.findGreatest
      (fun n => ModifiedUtf8.encodedLength (s.toList.take n) ≤ maxStringLength)
      s.toList.length = n :=
    Nat.findGreatest_eq_iff.mpr ⟨hn, fun _ => hfit, fun m hm hlen => by
      have := hmore m hm hlen
      omega⟩
  rw [fitting, heq, cut, hgreatest, String.toList_ofList]
  rfl

theorem encodedLength_cut (s : String) :
    ModifiedUtf8.encodedLength (cut s).toList ≤ maxStringLength := by
  rw [cut, String.toList_ofList]
  exact Nat.findGreatest_spec (P := fun n =>
    ModifiedUtf8.encodedLength (s.toList.take n) ≤ maxStringLength) (Nat.zero_le _) (Nat.zero_le _)

theorem cut_of_fits {s : String} (h : ModifiedUtf8.encodedLength s.toList ≤ maxStringLength) :
    cut s = s := by
  have hall : Nat.findGreatest
      (fun n => ModifiedUtf8.encodedLength (s.toList.take n) ≤ maxStringLength)
      s.toList.length = s.toList.length :=
    Nat.findGreatest_eq_iff.mpr ⟨Nat.le_refl _, fun _ => by simpa using h, by omega⟩
  rw [cut, hall, List.take_length, String.ofList_toList]

theorem write_cut (s : String) : (Cell.string (cut s)).write = ⟨(encodeStringCut s).1, none⟩ := by
  have hfits := encodedLength_cut s
  simp only [Cell.write, encodeString, hfits, if_true, Written.ofExcept, Written.mk.injEq, and_true]
  by_cases h : ModifiedUtf8.encodedLength s.toList ≤ maxStringLength
  · simp [encodeStringCut, h, cut_of_fits h]
  · simp [encodeStringCut, h, fitting_eq_cut]

mutual

def Cell.image : Cell → Cell
  | .string s => .string (cut s)
  | .dateTime t => .dateTime t.wholeMillis
  | .list items => .list (images items)
  | c => c

def images : List Cell → List Cell
  | [] => []
  | c :: cs => c.image :: images cs

end

variable {ρ : Type}

/-- What is left of a value in a buffer; nothing of null. -/
def image? (v : Value ρ) : Option Cell := (Cell.ofValue? v).map Cell.image

example : ([.list [.null, .list [], .enum "é"], .null, .dateTime ⟨-1, 999999999⟩] :
    List (Value Empty)).filterMap image? =
      [.list [.list [], .string "é"], .dateTime ⟨-1, 999000000⟩] := by
  rfl

theorem images_ofValues (vs : List (Value ρ)) :
    images (Cell.ofValues vs) = vs.filterMap image? := by
  induction vs with
  | nil => rfl
  | cons v vs ih =>
    cases hv : Cell.ofValue? v with
    | none => simp [Cell.ofValues, hv, image?, ih]
    | some c => simp [Cell.ofValues, hv, image?, images, ih]

theorem image?_list (items : List (Value ρ)) :
    image? (.list items) = some (.list (items.filterMap image?)) := by
  simp [image?, Cell.ofValue?, Cell.image, images_ofValues]

/-- A cell that reads back as it is. -/
structure Cell.ComesBack (levels : Nat) (c : Cell) : Prop where
  inRange : c.InRange
  depth : c.depth ≤ levels
  floored : c.floored = c

/-- What is written for a value is this cell, which comes back. -/
structure IsImage (levels : Nat) (v : Value ρ) (c : Cell) : Prop where
  image : image? v = some c
  write : c.write = ⟨BinarySink.encode v, none⟩
  comesBack : c.ComesBack levels

theorem map_floored {levels : Nat} {cs : List Cell} (h : ∀ c ∈ cs, c.ComesBack levels) :
    cs.map Cell.floored = cs :=
  (List.map_congr_left fun c hc => (h c hc).floored).trans (List.map_id cs)

theorem deepest_le {levels : Nat} {cs : List Cell} (h : ∀ c ∈ cs, c.ComesBack levels) :
    deepest cs ≤ levels := by
  induction cs with
  | nil => exact Nat.zero_le _
  | cons c cs ih =>
    have hc := (h c List.mem_cons_self).depth
    have hcs := ih fun c hc => h c (List.mem_cons_of_mem _ hc)
    simp only [deepest]
    omega

theorem Cell.ComesBack.list {levels : Nat} {cs : List Cell} (h : ∀ c ∈ cs, c.ComesBack levels) :
    (Cell.list cs).ComesBack (levels + 1) where
  inRange := allInRange_iff.mpr fun c hc => (h c hc).inRange
  depth := Nat.succ_le_succ (deepest_le h)
  floored := by rw [Cell.floored, flooredAll_eq_map, map_floored h]

theorem images_written {levels : Nat} {vs : List (Value ρ)}
    (h : ∀ v ∈ vs, v.isNull = false → ∃ c, IsImage levels v c) :
    writeAll (vs.filterMap image?) = ⟨BinarySink.encodeItems vs, none⟩ ∧
      (vs.filterMap image?).length = vs.countP (fun v => !v.isNull) ∧
      ∀ c ∈ vs.filterMap image?, c.ComesBack levels := by
  induction vs with
  | nil => exact ⟨rfl, rfl, by simp⟩
  | cons v vs ih =>
    obtain ⟨hwrite, hlen, hall⟩ := ih fun v hv => h v (List.mem_cons_of_mem _ hv)
    cases hv : v.isNull with
    | true =>
      obtain rfl := Value.eq_null_of_isNull hv
      have hskip : (Value.null :: vs).filterMap image? = vs.filterMap image? := rfl
      rw [hskip]
      exact ⟨hwrite, by simpa [Value.isNull] using hlen, hall⟩
    | false =>
      obtain ⟨c, hc⟩ := h v List.mem_cons_self hv
      rw [List.filterMap_cons_some hc.image]
      refine ⟨?_, by simp [hlen, hv], List.forall_mem_cons.mpr ⟨hc.comesBack, hall⟩⟩
      rw [writeAll, hc.write, hwrite]
      rfl

theorem isImage_list {levels : Nat} {items : List (Value ρ)}
    (hlen : (items.countP fun v => !v.isNull) ≤ maxCount)
    (h : ∀ v ∈ items, v.isNull = false → ∃ c, IsImage levels v c) :
    IsImage (levels + 1) (.list items) (.list (items.filterMap image?)) := by
  obtain ⟨hwrite, hcount, hall⟩ := images_written h
  have hfits : (items.filterMap image?).length ≤ maxCount := hcount ▸ hlen
  refine ⟨image?_list items, ?_, .list hall⟩
  rw [Cell.write, hwrite]
  simp [BinarySink.encode, ← hcount, encodeListHead, hfits, Written.ofExcept, Written.andThen]

theorem exists_isImage_scalar {levels : Nat} {v : Value ρ} (hp : v.isPlain)
    (hw : v.isStorable levels) (hn : v.isNull = false) (hl : ∀ items, v ≠ .list items) :
    ∃ c, IsImage levels v c := by
  cases v with
  | null => simp [Value.isNull] at hn
  | map | record => simp [Value.isPlain] at hp
  | list items => exact absurd rfl (hl items)
  | string s => exact ⟨_, rfl, write_cut s, trivial, Nat.zero_le _, rfl⟩
  | enum name => exact ⟨_, rfl, write_cut name, trivial, Nat.zero_le _, rfl⟩
  | bytes b =>
    have hb : b.length ≤ maxCount := by simpa [Value.isStorable] using hw
    refine ⟨.raw b, rfl, ?_, trivial, Nat.zero_le _, rfl⟩
    simp [Cell.write, BinarySink.encode, encodeRaw, hb, Written.ofExcept, Except.toOption]
  | dateTime t =>
    have ht : t.millisDate.InRange := by simpa [Value.isStorable] using hw
    refine ⟨.dateTime t.wholeMillis, rfl, ?_, Instant.inRange_wholeMillis ht, Nat.zero_le _, ?_⟩
    · simp [Cell.write, BinarySink.encode, encodeDateTime, t.millis_wholeMillis]
    · rw [Cell.floored, t.floored_wholeMillis]
  | date d =>
    have hd : d.InRange := by simpa [Value.isStorable] using hw
    exact ⟨.date d, rfl, rfl, hd, Nat.zero_le _, rfl⟩
  | _ => exact ⟨_, rfl, rfl, trivial, Nat.zero_le _, rfl⟩

theorem exists_isImage {levels : Nat} {v : Value ρ} (hp : v.isPlain) (hw : v.isStorable levels)
    (hn : v.isNull = false) : ∃ c, IsImage levels v c := by
  -- A list takes up a level, so that its items are within one level less.
  induction levels generalizing v with
  | zero =>
    refine exists_isImage_scalar hp hw hn fun items hv => ?_
    subst hv
    exact Bool.false_ne_true hw
  | succ levels ih =>
    by_cases hl : ∃ items, v = .list items
    · obtain ⟨items, rfl⟩ := hl
      rw [Value.isPlain, Value.allPlain_iff] at hp
      simp only [Value.isStorable, Bool.and_eq_true, decide_eq_true_eq, List.all_eq_true] at hw
      exact ⟨_, isImage_list hw.1 fun v hv => ih (hp v hv) (hw.2 v hv)⟩
    · exact exists_isImage_scalar hp hw hn fun items hv => hl ⟨items, hv⟩

theorem IsImage.encode_ne_nil {levels : Nat} {v : Value ρ} {c : Cell} (h : IsImage levels v c) :
    BinarySink.encode v ≠ [] := by
  have hback := c.readsBack levels h.comesBack.inRange (congrArg Written.error h.write)
  have hbytes := hback.bytes_ne_nil
  rwa [h.write] at hbytes

/-- The images of the values that a row was written from. -/
def imageRow (vs : List (Value ρ)) : Row := vs.filterMap image?

def Exportable (vs : List (Value ρ)) : Prop := ∀ v ∈ vs, v.isPlain ∧ v.isWithin maxListDepth

/-- The same, with nulls not counted. -/
def Storable (vs : List (Value ρ)) : Prop := ∀ v ∈ vs, v.isPlain ∧ v.isStorable maxListDepth

theorem Exportable.storable {vs : List (Value ρ)} (h : Exportable vs) : Storable vs :=
  fun v hv => ⟨(h v hv).1, Value.isStorable_of_isWithin (h v hv).2⟩

theorem Storable.append {vs ws : List (Value ρ)} (hv : Storable vs) (hw : Storable ws) :
    Storable (vs ++ ws) :=
  List.forall_mem_append.mpr ⟨hv, hw⟩

theorem imageRow_append (vs ws : List (Value ρ)) :
    imageRow (vs ++ ws) = imageRow vs ++ imageRow ws :=
  List.filterMap_append

theorem encodeItems_append (vs ws : List (Value ρ)) :
    BinarySink.encodeItems (vs ++ ws) = BinarySink.encodeItems vs ++ BinarySink.encodeItems ws := by
  induction vs with
  | nil => rfl
  | cons v vs ih => simp [BinarySink.encodeItems, ih]

theorem encodeItems_eq_nil_iff {vs : List (Value ρ)} (h : Storable vs) :
    BinarySink.encodeItems vs = [] ↔ imageRow vs = [] := by
  induction vs with
  | nil => exact ⟨fun _ => rfl, fun _ => rfl⟩
  | cons v vs ih =>
    obtain ⟨⟨hp, hw⟩, hvs⟩ := List.forall_mem_cons.mp h
    cases hv : v.isNull with
    | true =>
      obtain rfl := Value.eq_null_of_isNull hv
      exact ih hvs
    | false =>
      obtain ⟨c, hc⟩ := exists_isImage hp hw hv
      rw [imageRow, List.filterMap_cons_some hc.image]
      simp [BinarySink.encodeItems, hc.encode_ne_nil]

theorem imageRow_written {vs : List (Value ρ)} (h : Storable vs) :
    (writeRow (imageRow vs)).bytes = BinarySink.encodeItems vs ++ endOfRecord ∧
      (imageRow vs).map Cell.floored = imageRow vs ∧
      Yields Read.row (writeRow (imageRow vs)).bytes (some ((imageRow vs).map Cell.floored)) := by
  obtain ⟨hwrite, -, hall⟩ := images_written fun v hv => exists_isImage (h v hv).1 (h v hv).2
  have hrow : writeRow (imageRow vs) = ⟨BinarySink.encodeItems vs ++ endOfRecord, none⟩ := by
    rw [writeRow, imageRow, hwrite]
    rfl
  refine ⟨by rw [hrow], map_floored hall, ?_⟩
  exact yields_row (allInRange_iff.mpr fun c hc => (hall c hc).inRange)
    (congrArg Written.error hrow) fun c hc => (hall c hc).depth

theorem decodeRows_storable {batches : List (List (Value ρ))} (h : ∀ vs ∈ batches, Storable vs) :
    decodeRows (batches.flatMap fun vs => BinarySink.encodeItems vs ++ endOfRecord) =
      .ok (batches.map imageRow) := by
  have hbytes : (batches.flatMap fun vs => BinarySink.encodeItems vs ++ endOfRecord) =
      (batches.map imageRow).flatMap fun row => (writeRow row).bytes := by
    rw [List.flatMap_map]
    exact List.flatMap_congr fun vs hvs => (imageRow_written (h vs hvs)).1.symm
  have hyields : ∀ row ∈ batches.map imageRow,
      Yields Read.row (writeRow row).bytes (some (row.map Cell.floored)) :=
    List.forall_mem_map.mpr fun vs hvs => (imageRow_written (h vs hvs)).2.2
  have hback : ((batches.map imageRow).map fun row => row.map Cell.floored) =
      batches.map imageRow := by
    rw [List.map_map]
    exact List.map_congr_left fun vs hvs => (imageRow_written (h vs hvs)).2.1
  have hlen : (batches.map imageRow).length <
      (batches.flatMap fun vs => BinarySink.encodeItems vs ++ endOfRecord).length + 1 := by
    rw [List.length_map]
    exact Nat.lt_succ_of_le (length_le_flatMap fun vs _ => by simp [endOfRecord, tagged])
  rw [decodeRows, Cursor.rows, Cursor.ofBytes]
  dsimp only
  rw [hbytes] at hlen ⊢
  rw [rowsWithin_written hyields hlen, mapM_id_ok, hback]

theorem decodeRows_images {batches : List (List (Value ρ))} (h : ∀ vs ∈ batches, Exportable vs) :
    decodeRows (batches.flatMap fun vs => BinarySink.encodeItems vs ++ endOfRecord) =
      .ok (batches.map imageRow) :=
  decodeRows_storable fun vs hvs => (h vs hvs).storable

end Wire

end PathTemplate
