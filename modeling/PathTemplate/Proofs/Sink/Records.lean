import PathTemplate.Proofs.Sink.Appending
import PathTemplate.Proofs.Wire.Image
import PathTemplate.Proofs.Wire.Streaming

/-!
Records in a wire sink that is written to, ended, reset and spliced into. The rows that are read
back hold what was taken, in order. A sink remembers where its last record ended, but not where a
spliced one did. Main statement: no row is empty as long as every sink that is spliced in is empty
or has something behind its last record; any other one, spliced in and ended, makes an empty row.
-/

namespace PathTemplate

open Wire

/-- What is done with a sink for rows. Records are ended without force, and what is spliced in has a
history of its own. -/
inductive Sink.Act (ρ : Type)
  | accept (v : Value ρ)
  | endRecord
  | reset
  | splice (acts : List (Sink.Act ρ))

variable {ρ : Type}

namespace Sink

section Performing

variable {σ : Type} [Sink σ]

mutual

def Act.perform (s : σ) : Act ρ → σ
  | .accept v => accept s v
  | .endRecord => endRecord false s
  | .reset => reset s
  | .splice acts => splice s (performAll (fresh s) acts)

def performAll (s : σ) : List (Act ρ) → σ
  | [] => s
  | act :: acts => performAll (act.perform s) acts

end

theorem performAll_append (s : σ) (acts others : List (Act ρ)) :
    performAll s (acts ++ others) = performAll (performAll s acts) others := by
  induction acts generalizing s with
  | nil => rfl
  | cons act acts ih => exact ih (act.perform s)

end Performing

mutual

def Act.collect (taken : List (Value ρ)) : Act ρ → List (Value ρ)
  | .accept v => taken ++ [v]
  | .endRecord => taken
  | .reset => []
  | .splice acts => taken ++ collectAll [] acts

def collectAll (taken : List (Value ρ)) : List (Act ρ) → List (Value ρ)
  | [] => taken
  | act :: acts => collectAll (act.collect taken) acts

end

mutual

/-- Whether only values are taken that hold no map or record and are within the limits of the
format. -/
def Act.isWritable : Act ρ → Bool
  | .accept v => v.isPlain && v.isStorable maxListDepth
  | .splice acts => allWritable acts
  | _ => true

def allWritable : List (Act ρ) → Bool
  | [] => true
  | act :: acts => act.isWritable && allWritable acts

end

end Sink

/-- Whether something was written since the last record ended, or nothing at all. -/
def BinarySink.isOpen (s : BinarySink) : Bool :=
  s.content.isEmpty || s.recordStart < s.content.length

namespace Sink

mutual

/-- Whether all sinks that are spliced in, at any depth, are open when they are. -/
def Act.splicesOpen : Act ρ → Bool
  | .splice acts => allSpliceOpen acts && (performAll BinarySink.empty acts).isOpen
  | _ => true

def allSpliceOpen : List (Act ρ) → Bool
  | [] => true
  | act :: acts => act.splicesOpen && allSpliceOpen acts

end

end Sink

namespace BinarySink

/-- Records as they are written, each with its end marker. -/
def encodeRecords (records : List (List (Value ρ))) : List UInt8 :=
  records.flatMap fun vs => encodeItems vs ++ endOfRecord

theorem encodeRecords_append (records more : List (List (Value ρ))) :
    encodeRecords (records ++ more) = encodeRecords records ++ encodeRecords more :=
  List.flatMap_append

/-- The sink holds records and, behind them, the values of one that has not ended. It remembers the
end of the last record or an earlier place. -/
structure Holds (s : BinarySink) (taken : List (Value ρ)) (records : List (List (Value ρ)))
    (pending : List (Value ρ)) : Prop where
  content : s.content = encodeRecords records ++ encodeItems pending
  recordStart : s.recordStart ≤ (encodeRecords records).length
  cells : records.flatMap imageRow ++ imageRow pending = imageRow taken
  storable : ∀ vs ∈ records, Storable vs
  pendingStorable : Storable pending

structure Filled (s : BinarySink) (records : List (List (Value ρ))) (pending : List (Value ρ)) :
    Prop where
  records : ∀ vs ∈ records, imageRow vs ≠ []
  pending : s.recordStart < s.content.length → imageRow pending ≠ []

variable {s other : BinarySink} {taken taken' pending pending' : List (Value ρ)}
  {records records' : List (List (Value ρ))} {clean : Prop}

theorem holds_empty : Holds empty ([] : List (Value ρ)) [] [] :=
  ⟨rfl, Nat.le_refl _, rfl, by simp, by simp [Storable]⟩

theorem filled_empty : Filled empty [] ([] : List (Value ρ)) :=
  ⟨by simp, by simp [empty]⟩

theorem Holds.decodeRows (h : s.Holds taken records []) :
    decodeRows (Sink.bytes s) = .ok (records.map imageRow) := by
  have hbytes : Sink.bytes s = encodeRecords records := h.content.trans (List.append_nil _)
  rw [hbytes]
  exact decodeRows_storable h.storable

theorem Holds.append (h : s.Holds taken records pending) {vs : List (Value ρ)}
    (hvs : imageRow vs = imageRow taken') (hs : Storable vs) :
    (s.append (encodeItems vs)).Holds (taken ++ taken') records (pending ++ vs) where
  content := by simp [BinarySink.append, h.content, encodeItems_append]
  recordStart := h.recordStart
  cells := by rw [imageRow_append, imageRow_append, ← List.append_assoc, h.cells, hvs]
  storable := h.storable
  pendingStorable := h.pendingStorable.append hs

theorem Filled.append (h : s.Filled records pending) {vs : List (Value ρ)} (hs : Storable vs) :
    (s.append (encodeItems vs)).Filled records (pending ++ vs) where
  records := h.records
  pending hlt himage := by
    rw [imageRow_append, List.append_eq_nil_iff] at himage
    have hbytes := (encodeItems_eq_nil_iff hs).mpr himage.2
    refine h.pending ?_ himage.1
    simpa [BinarySink.append, hbytes] using hlt

theorem endRecord_of_lt (h : s.recordStart < s.content.length) : Sink.endRecord false s =
    ⟨s.content ++ endOfRecord, (s.content ++ endOfRecord).length⟩ := by
  simp [Sink.endRecord, h, BinarySink.append]

theorem endRecord_of_not_lt (h : ¬s.recordStart < s.content.length) :
    Sink.endRecord false s = s := by
  simp [Sink.endRecord, h]

theorem Holds.endRecord (h : s.Holds taken records pending) :
    Holds (Sink.endRecord false s) taken
      (if s.recordStart < s.content.length then records ++ [pending] else records) [] := by
  by_cases hlt : s.recordStart < s.content.length
  · have hrecords : encodeRecords (records ++ [pending]) = s.content ++ endOfRecord := by
      simp [encodeRecords, h.content]
    rw [if_pos hlt, endRecord_of_lt hlt, ← hrecords]
    exact ⟨(List.append_nil _).symm, Nat.le_refl _, by simpa [imageRow] using h.cells,
      List.forall_mem_append.mpr ⟨h.storable, by simpa using h.pendingStorable⟩,
      by simp [Storable]⟩
  · have hnil : encodeItems pending = [] := by
      have hlen := congrArg List.length h.content
      rw [List.length_append] at hlen
      have hstart := h.recordStart
      exact List.length_eq_zero_iff.mp (by omega)
    rw [if_neg hlt, endRecord_of_not_lt hlt]
    refine ⟨by rw [h.content, hnil]; rfl, h.recordStart, ?_, h.storable, by simp [Storable]⟩
    have hcells := h.cells
    rwa [(encodeItems_eq_nil_iff h.pendingStorable).mp hnil] at hcells

theorem Filled.endRecord (h : s.Filled records pending) :
    Filled (Sink.endRecord false s)
      (if s.recordStart < s.content.length then records ++ [pending] else records) [] := by
  by_cases hlt : s.recordStart < s.content.length
  · rw [if_pos hlt, endRecord_of_lt hlt]
    exact ⟨List.forall_mem_append.mpr ⟨h.records, by simpa using h.pending hlt⟩,
      fun hlt' => absurd hlt' (Nat.lt_irrefl _)⟩
  · rw [if_neg hlt, endRecord_of_not_lt hlt]
    exact ⟨h.records, fun hlt' => absurd hlt' hlt⟩

/-- The first record of what is spliced in goes on with what is pending. -/
theorem Holds.splice (h : s.Holds taken records pending) {first : List (Value ρ)}
    (hother : other.Holds taken' (first :: records') pending') :
    Holds (Sink.splice s other) (taken ++ taken') (records ++ (pending ++ first) :: records')
      pending' where
  content := by
    simp [Sink.splice, BinarySink.append, h.content, hother.content, encodeRecords,
      encodeItems_append]
  recordStart := by
    rw [encodeRecords_append, List.length_append]
    exact Nat.le_trans h.recordStart (Nat.le_add_right ..)
  cells := by
    rw [imageRow_append, ← h.cells, ← hother.cells]
    simp [imageRow_append]
  storable := by
    obtain ⟨hfirst, hrest⟩ := List.forall_mem_cons.mp hother.storable
    exact List.forall_mem_append.mpr
      ⟨h.storable, List.forall_mem_cons.mpr ⟨h.pendingStorable.append hfirst, hrest⟩⟩
  pendingStorable := hother.pendingStorable

theorem Filled.splice (h : s.Filled records pending) {first : List (Value ρ)}
    (hother : other.Filled (first :: records') pending')
    (hlt : other.recordStart < other.content.length) :
    Filled (Sink.splice s other) (records ++ (pending ++ first) :: records') pending' where
  records := by
    obtain ⟨hfirst, hrest⟩ := List.forall_mem_cons.mp hother.records
    have hjoined : imageRow (pending ++ first) ≠ [] := fun himage => by
      rw [imageRow_append, List.append_eq_nil_iff] at himage
      exact hfirst himage.2
    exact List.forall_mem_append.mpr ⟨h.records, List.forall_mem_cons.mpr ⟨hjoined, hrest⟩⟩
  pending _ := hother.pending hlt

def Keeps (clean : Prop) (s : BinarySink) (taken : List (Value ρ)) : Prop :=
  ∃ records pending, s.Holds taken records pending ∧ (clean → s.Filled records pending)

theorem keeps_empty : Keeps clean empty ([] : List (Value ρ)) :=
  ⟨[], [], holds_empty, fun _ => filled_empty⟩

theorem Keeps.accept (h : s.Keeps clean taken) {v : Value ρ} (hp : v.isPlain)
    (hw : v.isStorable maxListDepth) : Keeps clean (Sink.accept s v) (taken ++ [v]) := by
  obtain ⟨records, pending, hholds, hfilled⟩ := h
  have hv : Storable [v] := by simpa [Storable] using ⟨hp, hw⟩
  have hencode : Sink.accept s v = s.append (encodeItems [v]) := by
    simp [Sink.accept, encodeItems]
  rw [hencode]
  exact ⟨records, pending ++ [v], hholds.append rfl hv, fun hc => (hfilled hc).append hv⟩

theorem Keeps.endRecord (h : s.Keeps clean taken) : Keeps clean (Sink.endRecord false s) taken := by
  obtain ⟨records, pending, hholds, hfilled⟩ := h
  exact ⟨_, [], hholds.endRecord, fun hc => (hfilled hc).endRecord⟩

theorem Keeps.splice {clean' : Prop} (h : s.Keeps clean taken)
    (hother : other.Keeps clean' taken') :
    Keeps (clean ∧ clean' ∧ other.isOpen) (Sink.splice s other) (taken ++ taken') := by
  obtain ⟨records, pending, hholds, hfilled⟩ := h
  obtain ⟨records', pending', hholds', hfilled'⟩ := hother
  cases records' with
  | nil =>
    have hencode : Sink.splice s other = s.append (encodeItems pending') := by
      simp [Sink.splice, hholds'.content, encodeRecords]
    rw [hencode]
    exact ⟨records, pending ++ pending', hholds.append hholds'.cells hholds'.pendingStorable,
      fun hc => (hfilled hc.1).append hholds'.pendingStorable⟩
  | cons first records' =>
    refine ⟨_, pending', hholds.splice hholds', fun ⟨hc, hc', hopen⟩ => ?_⟩
    have hlt : other.recordStart < other.content.length := by
      simpa [isOpen, hholds'.content, encodeRecords, endOfRecord, tagged] using hopen
    exact (hfilled hc).splice (hfilled' hc') hlt

theorem Keeps.decodeRows_endRecord (h : s.Keeps clean taken) : ∃ rows,
    decodeRows (Sink.bytes (Sink.endRecord false s)) = .ok rows ∧
      rows.flatten = imageRow taken ∧ (clean → [] ∉ rows) := by
  obtain ⟨records, pending, hholds, hfilled⟩ := h
  have hend := hholds.endRecord
  refine ⟨_, hend.decodeRows, ?_, fun hc hmem => ?_⟩
  · rw [← List.flatMap_def, ← hend.cells]
    exact (List.append_nil _).symm
  · obtain ⟨vs, hvs, hrow⟩ := List.mem_map.mp hmem
    exact (hfilled hc).endRecord.records vs hvs hrow

/-- Where the spliced sink has ended its record, the end of the record is not noticed: ending it
once more makes an empty one. -/
theorem Keeps.decodeRows_splice_closed {clean' : Prop} (h : s.Keeps clean taken)
    (hother : other.Keeps clean' taken') (hclosed : other.isOpen = false) : ∃ rows,
    decodeRows (Sink.bytes (Sink.endRecord false (Sink.splice s other))) = .ok (rows ++ [[]]) := by
  obtain ⟨records, pending, hholds, -⟩ := h
  obtain ⟨records', pending', hholds', -⟩ := hother
  simp only [isOpen, Bool.or_eq_false_iff, decide_eq_false_iff_not] at hclosed
  obtain ⟨hsome, hstart⟩ := hclosed
  have hended := hholds'.endRecord
  rw [endRecord_of_not_lt hstart, if_neg hstart] at hended
  cases records' with
  | nil => simp [hended.content, encodeRecords, encodeItems] at hsome
  | cons first records' =>
    have hsplice := hholds.splice hended
    have hlt : (Sink.splice s other).recordStart < (Sink.splice s other).content.length := by
      have hs := congrArg List.length hholds.content
      have hle := hholds.recordStart
      have hpos : 0 < other.content.length := by simpa [List.length_pos_iff] using hsome
      simp only [Sink.splice, BinarySink.append, List.length_append] at hs ⊢
      omega
    rw [endRecord_of_lt hlt]
    exact ⟨_, decodeRows_ended hsplice.decodeRows⟩

end BinarySink

namespace Sink

open BinarySink

mutual

theorem Act.perform_keeps (act : Act ρ) (hw : act.isWritable) {clean : Prop} {s : BinarySink}
    {taken : List (Value ρ)} (h : s.Keeps clean taken) :
    (act.perform s).Keeps (clean ∧ act.splicesOpen) (act.collect taken) := by
  cases act with
  | accept v =>
    simp only [Act.isWritable, Bool.and_eq_true] at hw
    simpa [Act.splicesOpen, Act.perform, Act.collect] using h.accept hw.1 hw.2
  | endRecord => simpa [Act.splicesOpen, Act.perform, Act.collect] using h.endRecord
  | reset => exact keeps_empty
  | splice acts =>
    have hacts : (performAll BinarySink.empty acts).Keeps (True ∧ allSpliceOpen acts)
        (collectAll [] acts) := performAll_keeps acts hw keeps_empty
    have hfresh : fresh s = BinarySink.empty := rfl
    simpa [Act.splicesOpen, Act.perform, Act.collect, hfresh] using h.splice hacts

theorem performAll_keeps (acts : List (Act ρ)) (hw : allWritable acts) {clean : Prop}
    {s : BinarySink} {taken : List (Value ρ)} (h : s.Keeps clean taken) :
    (performAll s acts).Keeps (clean ∧ allSpliceOpen acts) (collectAll taken acts) := by
  cases acts with
  | nil => simpa [allSpliceOpen, performAll, collectAll] using h
  | cons act acts =>
    simp only [allWritable, Bool.and_eq_true] at hw
    have hact := act.perform_keeps hw.1 h
    simpa [allSpliceOpen, performAll, collectAll, and_assoc] using performAll_keeps acts hw.2 hact

end

/-- Whatever is done with a wire sink, its rows can be read back once the last record has ended, and
together they hold what was taken, in order. If only open sinks are spliced in, at any depth, none
of the rows is empty, and nothing is added where the bytes were rows already. A sink that is not
open always makes the difference: spliced in behind any history, it leaves an empty row when the
record is ended. -/
theorem decodeRows_performAll {acts : List (Act ρ)} (hw : allWritable acts) :
    (∃ rows, decodeRows (bytes (endRecord false (performAll BinarySink.empty acts))) = .ok rows ∧
      rows.flatten = imageRow (collectAll [] acts) ∧
      (allSpliceOpen acts → [] ∉ rows ∧
        ∀ ended, decodeRows (bytes (performAll BinarySink.empty acts)) = .ok ended →
          endRecord false (performAll BinarySink.empty acts) = performAll BinarySink.empty acts)) ∧
    ∀ others : List (Act ρ), allWritable others →
      (performAll BinarySink.empty others).isOpen = false →
      ∃ rows, decodeRows (bytes (endRecord false
        (performAll BinarySink.empty (acts ++ [.splice others])))) = .ok (rows ++ [[]]) := by
  have hkeeps : (performAll BinarySink.empty acts).Keeps (True ∧ allSpliceOpen acts)
      (collectAll [] acts) := performAll_keeps acts hw keeps_empty
  refine ⟨?_, fun others hothers hclosed => ?_⟩
  · obtain ⟨rows, hrows, hcells, hfilled⟩ := hkeeps.decodeRows_endRecord
    refine ⟨rows, hrows, hcells, fun hopen => ⟨hfilled ⟨trivial, hopen⟩, fun ended hended => ?_⟩⟩
    refine endRecord_of_not_lt fun hlt => hfilled ⟨trivial, hopen⟩ ?_
    -- One more end marker would have made an empty row of what was complete.
    rw [endRecord_of_lt hlt] at hrows
    have hsame := (decodeRows_ended hended).symm.trans hrows
    rw [← Except.ok.inj hsame]
    simp
  · have hother : (performAll BinarySink.empty others).Keeps (True ∧ allSpliceOpen others)
        (collectAll [] others) := performAll_keeps others hothers keeps_empty
    rw [performAll_append]
    exact hkeeps.decodeRows_splice_closed hother hclosed

def ledgerActs : List (Act Empty) :=
  [.accept (.int 1),
    .splice [.accept (.list [.null, .bool true]), .endRecord, .accept (.byte 2), .endRecord,
      .accept (.date ⟨0⟩)],
    .endRecord, .splice [.splice [.accept .null], .accept (.int 3), .reset], .endRecord]

theorem decodeRows_performAll_ledgerActs :
    (allWritable ledgerActs ∧ allSpliceOpen ledgerActs) ∧
    (∃ rows, decodeRows (bytes (endRecord false (performAll BinarySink.empty ledgerActs))) =
        .ok rows ∧
      rows.flatten = imageRow (collectAll [] ledgerActs) ∧
      (allSpliceOpen ledgerActs → [] ∉ rows ∧
        ∀ ended, decodeRows (bytes (performAll BinarySink.empty ledgerActs)) = .ok ended →
          endRecord false (performAll BinarySink.empty ledgerActs) =
            performAll BinarySink.empty ledgerActs)) ∧
    ∃ rows, decodeRows (bytes (endRecord false (performAll BinarySink.empty
      (ledgerActs ++ [.splice [.accept (.int 1), .endRecord]])))) = .ok (rows ++ [[]]) := by
  have hw : allWritable ledgerActs := by decide +kernel
  obtain ⟨hrows, hclosed⟩ := decodeRows_performAll hw
  exact ⟨⟨hw, by decide +kernel⟩, hrows,
    hclosed [.accept (.int 1), .endRecord] (by decide) (by decide)⟩

/-- A row that was ended in a sink of its own, spliced in and ended, although nothing was written
since. -/
theorem empty_row_of_spliced_row :
    allWritable ([.splice [.accept (.int 1), .endRecord]] : List (Act Empty)) ∧
    decodeRows (bytes (performAll BinarySink.empty
      ([.splice [.accept (.int 1), .endRecord]] : List (Act Empty)))) = .ok [[.int 1]] ∧
    decodeRows (bytes (endRecord false (performAll BinarySink.empty
      ([.splice [.accept (.int 1), .endRecord]] : List (Act Empty))))) = .ok [[.int 1], []] :=
  ⟨by decide, rfl, rfl⟩

end Sink

end PathTemplate
