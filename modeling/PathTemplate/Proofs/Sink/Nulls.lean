import PathTemplate.Proofs.Wire.Image
import PathTemplate.Sink.Object

namespace PathTemplate

open Wire

variable {ρ : Type}

namespace Value

mutual

def isNullFree : Value ρ → Bool
  | .null => false
  | .list items => allNullFree items
  | _ => true

def allNullFree : List (Value ρ) → Bool
  | [] => true
  | v :: vs => isNullFree v && allNullFree vs

end

/-- Whether nulls stand nowhere but among the items of the value itself. -/
def nullsAreOutermost : Value ρ → Bool
  | .list items => items.all fun v => v.isNull || v.isNullFree
  | _ => true

mutual

/-- The cell of a value, item by item: the names of enums as texts, texts cut where their length
fields end, and times moved back to where their milliseconds began. A null has none, and neither has
anything with a null in it. -/
def translate? : Value ρ → Option Cell
  | .null => none
  | .bool b => some (.bool b)
  | .byte n => some (.byte n)
  | .short n => some (.short n)
  | .int n => some (.int n)
  | .long n => some (.long n)
  | .float x => some (.float x)
  | .double x => some (.double x)
  | .string s => some (.string (cut s))
  | .bytes b => some (.raw b)
  | .dateTime t => some (.dateTime t.wholeMillis)
  | .date d => some (.date d)
  | .enum name => some (.string (cut name))
  | .list items => (translateAll? items).map .list
  | .map .. => none
  | .record _ => none

def translateAll? : List (Value ρ) → Option (List Cell)
  | [] => some []
  | v :: vs => do
    let c ← translate? v
    let cs ← translateAll? vs
    return c :: cs

end

end Value

theorem exists_image? {v : Value ρ} (hp : v.isPlain) (hn : v.isNullFree) :
    ∃ c, image? v = some c := by
  cases v with
  | null => simp [Value.isNullFree] at hn
  | map | record => simp [Value.isPlain] at hp
  | _ => exact ⟨_, rfl⟩

namespace Value

mutual

theorem translate?_eq (v : Value ρ) :
    translate? v = if v.isPlain ∧ v.isNullFree then image? v else none := by
  cases v with
  | list items =>
    rw [translate?, translateAll?_eq items, image?_list, apply_ite (Option.map Cell.list)]
    rfl
  | _ => rfl

theorem translateAll?_eq (vs : List (Value ρ)) : translateAll? vs =
    if allPlain vs ∧ allNullFree vs then some (vs.filterMap image?) else none := by
  cases vs with
  | nil => rfl
  | cons v vs =>
    rw [translateAll?, translate?_eq v, translateAll?_eq vs]
    simp only [allPlain, allNullFree, Bool.and_eq_true]
    by_cases hv : v.isPlain ∧ v.isNullFree
    · obtain ⟨c, hc⟩ := exists_image? hv.1 hv.2
      by_cases hvs : allPlain vs ∧ allNullFree vs <;> simp [hv, hvs, hc]
    · have hnot : ¬((v.isPlain ∧ allPlain vs) ∧ v.isNullFree ∧ allNullFree vs) :=
        fun h => hv ⟨h.1.1, h.2.1⟩
      rw [if_neg hv, if_neg hnot]
      rfl

end

end Value

mutual

theorem Value.detach?_plain (v : Value ρ) (h : v.isPlain) : ∃ w : Value Empty,
    v.detach? = some w ∧ w.isPlain ∧ w.isNullFree = v.isNullFree ∧
      Cell.ofValue? w = Cell.ofValue? v := by
  cases v with
  | map | record => simp [isPlain] at h
  | list items =>
    obtain ⟨ws, hws, hplain, hnull, hcells⟩ := detachAll?_plain items h
    exact ⟨.list ws, by rw [detach?, hws]; rfl, hplain, hnull, by
      rw [Cell.ofValue?, Cell.ofValue?, hcells]⟩
  | _ => exact ⟨_, rfl, rfl, rfl, rfl⟩

theorem Value.detachAll?_plain (vs : List (Value ρ)) (h : Value.allPlain vs) :
    ∃ ws : List (Value Empty), Value.detachAll? vs = some ws ∧ Value.allPlain ws ∧
      Value.allNullFree ws = Value.allNullFree vs ∧ Cell.ofValues ws = Cell.ofValues vs := by
  cases vs with
  | nil => exact ⟨[], rfl, rfl, rfl, rfl⟩
  | cons v vs =>
    simp only [allPlain, Bool.and_eq_true] at h
    obtain ⟨w, hw, hplain, hnull, hcell⟩ := v.detach?_plain h.1
    obtain ⟨ws, hws, hplains, hnulls, hcells⟩ := detachAll?_plain vs h.2
    refine ⟨w :: ws, ?_, ?_, ?_, ?_⟩
    · simp [detachAll?, hw, hws]
    · simp [allPlain, hplain, hplains]
    · simp [allNullFree, hnull, hnulls]
    · simp [Cell.ofValues, hcell, hcells]

end

namespace ObjectSink

theorem keep_items {vs : List (Value ρ)} (h : Value.allPlain vs) : ∃ ws : List (Value Empty),
    (vs.filter fun v => !v.isNull).filterMap Value.detach? = ws ∧ Value.allPlain ws ∧
      Value.allNullFree ws = vs.all (fun v => v.isNull || v.isNullFree) ∧
      Cell.ofValues ws = Cell.ofValues vs := by
  induction vs with
  | nil => exact ⟨[], rfl, rfl, rfl, rfl⟩
  | cons v vs ih =>
    simp only [Value.allPlain, Bool.and_eq_true] at h
    obtain ⟨ws, hws, hplains, hnulls, hcells⟩ := ih h.2
    cases hv : v.isNull with
    | true =>
      obtain rfl := Value.eq_null_of_isNull hv
      exact ⟨ws, by simpa [Value.isNull] using hws, hplains, by simp [hnulls, Value.isNull],
        by simp [Cell.ofValues, Cell.ofValue?, hcells]⟩
    | false =>
      obtain ⟨w, hw, hplain, hnull, hcell⟩ := v.detach?_plain h.1
      refine ⟨w :: ws, ?_, ?_, ?_, ?_⟩
      · simp [hv, hw, hws]
      · simp [Value.allPlain, hplain, hplains]
      · simp [Value.allNullFree, hv, hnull, hnulls]
      · simp [Cell.ofValues, hcell, hcells]

/-- What is kept of a value has the same cell, and is without nulls if no inner list has any. -/
theorem keep_plain {v : Value ρ} (hp : v.isPlain) (hn : v.isNull = false) :
    ∃ k, keep v = some k ∧ k.isPlain ∧ k.isNullFree = v.nullsAreOutermost ∧
      image? k = image? v := by
  cases v with
  | null => simp [Value.isNull] at hn
  | map | record => simp [Value.isPlain] at hp
  | list items =>
    obtain ⟨ws, hws, hplain, hnull, hcells⟩ := keep_items hp
    exact ⟨.list ws, by rw [keep, hws], hplain, hnull, by
      rw [image?, image?, Cell.ofValue?, Cell.ofValue?, hcells]⟩
  | _ => exact ⟨_, rfl, rfl, rfl, rfl⟩

end ObjectSink

theorem decodeRows_accept {v : Value ρ} (hp : v.isPlain) (hw : v.isStorable maxListDepth)
    (force : Bool) :
    decodeRows (Sink.bytes (Sink.endRecord force (Sink.accept BinarySink.empty v))) =
      .ok (if force || !v.isNull then [imageRow [v]] else []) := by
  have hrow : decodeRows (BinarySink.encode v ++ endOfRecord) = .ok [imageRow [v]] := by
    have hv : ∀ vs ∈ [[v]], Storable vs := by simpa [Storable] using ⟨hp, hw⟩
    simpa [BinarySink.encodeItems] using decodeRows_storable hv
  cases hn : v.isNull with
  | true =>
    obtain rfl := Value.eq_null_of_isNull hn
    cases force with
    | true => exact hrow
    | false => rfl
  | false =>
    obtain ⟨c, hc⟩ := exists_isImage hp hw hn
    have hsome := List.length_pos_iff.mpr hc.encode_ne_nil
    have hend : Sink.bytes (Sink.endRecord force (Sink.accept BinarySink.empty v)) =
        BinarySink.encode v ++ endOfRecord := by
      simp [Sink.bytes, Sink.endRecord, Sink.accept, BinarySink.append, BinarySink.empty, hsome]
    simpa [hend] using hrow

/-- A value without maps and records, within the limits of the format, in a fresh sink of each kind.
Null leaves no trace in either. Of any other value the wire sink holds one cell, which is what is
left in a buffer of the value that the single-value sink keeps. It is the translation of that value,
item by item, if and only if no list inside the value has a null among its items; otherwise the
single-value sink keeps that null, and nothing translates it. -/
theorem decodeRows_accept_kept {v : Value ρ} (hp : v.isPlain) (hw : v.isStorable maxListDepth)
    (force : Bool) :
    (v.isNull → (Sink.accept ObjectSink.empty v).value = none ∧
      decodeRows (Sink.bytes (Sink.endRecord force (Sink.accept BinarySink.empty v))) =
        .ok (if force then [[]] else [])) ∧
    (v.isNull = false → ∃ k c, (Sink.accept ObjectSink.empty v).value = some k ∧
      decodeRows (Sink.bytes (Sink.endRecord force (Sink.accept BinarySink.empty v))) = .ok [[c]] ∧
      image? k = some c ∧ (k.translate? = some c ↔ v.nullsAreOutermost) ∧
      k.isNullFree = v.nullsAreOutermost) := by
  have hrows := decodeRows_accept hp hw force
  refine ⟨fun hn => ?_, fun hn => ?_⟩
  · obtain rfl := Value.eq_null_of_isNull hn
    exact ⟨rfl, hrows.trans (by cases force <;> rfl)⟩
  · obtain ⟨c, hc⟩ := exists_isImage hp hw hn
    obtain ⟨k, hk, hplain, hfree, himage⟩ := ObjectSink.keep_plain hp hn
    have hkc : image? k = some c := himage.trans hc.image
    refine ⟨k, c, by simp [Sink.accept, hk], ?_, hkc, ?_, hfree⟩
    · simpa [hn, imageRow, hc.image] using hrows
    · rw [Value.translate?_eq, hkc, ← hfree]
      simp [hplain]

def visitedTiers : Value Empty :=
  .list [.null, .list [.enum "Gold", .dateTime ⟨-1, 999999999⟩], .null]

theorem decodeRows_accept_kept_visitedTiers :
    (visitedTiers.isPlain ∧ visitedTiers.isStorable maxListDepth ∧ visitedTiers.isNull = false) ∧
    ∃ k c, (Sink.accept ObjectSink.empty visitedTiers).value = some k ∧
      decodeRows (Sink.bytes (Sink.endRecord false (Sink.accept BinarySink.empty visitedTiers))) =
        .ok [[c]] ∧
      image? k = some c ∧ (k.translate? = some c ↔ visitedTiers.nullsAreOutermost) ∧
      k.isNullFree = visitedTiers.nullsAreOutermost := by
  have hw : visitedTiers.isStorable maxListDepth := by decide +kernel
  exact ⟨⟨rfl, hw, rfl⟩, (decodeRows_accept_kept (v := visitedTiers) rfl hw false).2 rfl⟩

/-- A null in an inner list is left out of wire output, but the single-value sink keeps it. -/
theorem kept_inner_null :
    (Sink.accept ObjectSink.empty (.list [.list [.null]] : Value Empty)).value =
      some (.list [.list [.null]]) ∧
    decodeRows (Sink.bytes (Sink.endRecord false
      (Sink.accept BinarySink.empty (.list [.list [.null]] : Value Empty)))) =
        .ok [[.list [.list []]]] ∧
    (.list [.list [.null]] : Value Empty).translate? = none := by
  refine ⟨rfl, ?_, rfl⟩
  rfl

end PathTemplate
