import PathTemplate.Proofs.Compiler.Safety
import PathTemplate.Proofs.Program.Replay
import PathTemplate.Proofs.Wire.Image

/-!
Export of records. A program that renders one input after the other into a wire sink leaves a buffer
from which the rows can be read back: one for each input, with what the wire format holds of the
values that were printed for it.
-/

namespace PathTemplate

open PathTemplate.Routine PathTemplate.Wire PathTemplate.Calendar

variable {ρ σ : Type}

/-- The values that a routine hands over when it renders an input into a sink, those for the inner
sinks of joins and alternatives included. -/
def Routine.values [Sink σ] (schema : Schema ρ) (functions : Functions ρ) (params : Params ρ)
    (r : Routine) (input : ρ) (s : σ) : List (Value ρ) :=
  handedOver ⟨input, params⟩ (visitsAll ⟨schema, functions, r.temps.length⟩ ⟨input, params⟩ r.body
    (Run.start (max r.temps.length 1) input) s)

/-- What a sink holds when inputs have been rendered into it, each ended as a record. -/
def Program.runAll [Sink σ] (p : Program ρ) (force : Bool) (params : Params ρ) (inputs : List ρ)
    (s : σ) : σ :=
  ((p.runRecords force params inputs s).getLast?.map (·.2)).getD s

theorem Program.runAll_cons [Sink σ] (p : Program ρ) (force : Bool) (params : Params ρ)
    (input : ρ) (rest : List ρ) (s : σ) : p.runAll force params (input :: rest) s =
      p.runAll force params rest (Sink.endRecord force (p.run input params s)) := by
  simp only [runAll, runRecords, List.getLast?_cons]
  cases (p.runRecords force params rest
    (Sink.endRecord force (p.run input params s))).getLast? <;> rfl

section

variable {schema : Schema ρ} {functions : Functions ρ} {config : Config} {src : Source}
  {name : String} {r : Routine} {p : Program ρ}

theorem Source.exists_program {α : Type} {f : Routine → Program ρ → α} {a : α}
    (h : ((src.routine schema functions config name).toOption.bind fun r =>
      (src.link schema functions r).toOption.map fun p => f r p) = some a) :
    ∃ r p, src.routine schema functions config name = .ok r ∧
      src.link schema functions r = .ok p ∧ f r p = a := by
  obtain ⟨r, hr, h⟩ := Option.bind_eq_some_iff.mp h
  obtain ⟨p, hp, h⟩ := Option.map_eq_some_iff.mp h
  exact ⟨r, p, eq_ok_of_toOption hr, eq_ok_of_toOption hp, h⟩

theorem Program.run_eq_foldl [Sink σ] [QuietSink σ]
    (hp : Program.link schema functions r = .ok p) (input : ρ) (params : Params ρ) (s : σ) :
    p.run input params s = (r.values schema functions params input s).foldl Sink.accept s := by
  rw [Program.run_eq_exec hp, execAll_replays]
  obtain ⟨-, -, rfl⟩ := Program.link_eq_ok.mp hp
  rfl

theorem Source.run_appends [Sink σ] [LawfulSink σ]
    (hr : src.routine schema functions config name = .ok r)
    (hp : Program.link schema functions r = .ok p) (input : ρ) (params : Params ρ) :
    Appends (fun s : σ => p.run input params s) := by
  obtain ⟨-, children, -, hgen⟩ := Source.routine_typed hr
  exact (Tree.walkAll_appends _ _ _ _).congr fun s => Program.run_eq_walkAll hgen hp input params s

/-- The values that a program prints for an input of its type hold no map or record, unless a
parameter does. -/
theorem Source.values_isPlain [Sink σ] {types : RecordTypes ρ} {params : Params ρ}
    (hc : Conforming types schema functions params)
    (hparams : ∀ name v, params.get? name = some v → v.isPlain)
    (hr : src.routine schema functions config name = .ok r)
    (hp : Program.link schema functions r = .ok p) {input : ρ}
    (hin : types.IsA schema input src.input) (s : σ) :
    ∀ v ∈ r.values schema functions params input s, v.isPlain := by
  have hsafe := Source.visits_safe hc hr hp hin s
  obtain ⟨-, -, rfl⟩ := Program.link_eq_ok.mp hp
  intro v hv
  obtain ⟨visit, hvisit, hv⟩ := List.mem_flatMap.mp hv
  exact (hsafe visit hvisit).isPlain hparams hv

end

theorem BinarySink.foldl_accept (vs : List (Value ρ)) (s : BinarySink) :
    vs.foldl Sink.accept s = s.append (encodeItems vs) := by
  induction vs generalizing s with
  | nil => simp [encodeItems, append]
  | cons v vs ih =>
    rw [List.foldl_cons, ih]
    simp [Sink.accept, encodeItems, append]

theorem BinarySink.endRecord_content (s : BinarySink) :
    (Sink.endRecord true s).content = s.content ++ endOfRecord := rfl

theorem Program.runAll_content {p : Program ρ} {params : Params ρ} {values : ρ → List (Value ρ)}
    (h : ∀ (input : ρ) (s : BinarySink),
      p.run input params s = s.append (BinarySink.encodeItems (values input)))
    (inputs : List ρ) (s : BinarySink) : (p.runAll true params inputs s).content =
      s.content ++ (inputs.map values).flatMap
        fun vs => BinarySink.encodeItems vs ++ endOfRecord := by
  induction inputs generalizing s with
  | nil => simp [runAll, runRecords]
  | cons input rest ih =>
    rw [runAll_cons, ih, BinarySink.endRecord_content, h]
    simp [BinarySink.append]

/-- Inputs that were rendered one after the other into one wire sink, each ended as a record, are
read back as one row each: the images of the values that are printed for the input into a fresh sink.
Members and functions have to keep to their types, printed values to the limits of the format, and
parameters, which have no type of their own, to what can be printed. -/
theorem export_decodes {types : RecordTypes ρ} {schema : Schema ρ} {functions : Functions ρ}
    {params : Params ρ} {config : Config} {src : Source} {name : String} {r : Routine}
    {p : Program ρ} (hc : Conforming types schema functions params)
    (hparams : ∀ name v, params.get? name = some v → v.isPlain)
    (hr : src.routine schema functions config name = .ok r)
    (hp : src.link schema functions r = .ok p) (inputs : List ρ)
    (hin : ∀ input ∈ inputs, types.IsA schema input src.input)
    (hlimits : ∀ input ∈ inputs,
      ∀ v ∈ r.values schema functions params input BinarySink.empty, v.isWithin maxListDepth) :
    decodeRows (Sink.bytes (p.runAll true params inputs BinarySink.empty)) =
      .ok (inputs.map fun input =>
        imageRow (r.values schema functions params input BinarySink.empty)) := by
  have hp := mapError_eq_ok.mp hp
  have hrun : ∀ (input : ρ) (s : BinarySink), p.run input params s =
      s.append (BinarySink.encodeItems
        (r.values schema functions params input BinarySink.empty)) := by
    -- What a run adds to the records before it is what it writes into a fresh sink.
    intro input s
    have happart := (Source.run_appends hr hp input params).apart s
    rw [show Sink.fresh s = BinarySink.empty from rfl] at happart
    rw [happart, Program.run_eq_foldl hp, BinarySink.foldl_accept]
    rfl
  have hvalues : ∀ vs ∈ inputs.map fun input =>
      r.values schema functions params input BinarySink.empty, Exportable vs := by
    refine List.forall_mem_map.mpr fun input hmem v hv => ⟨?_, hlimits input hmem v hv⟩
    exact Source.values_isPlain hc hparams hr hp (hin input hmem) BinarySink.empty v hv
  have hbytes := Program.runAll_content hrun inputs BinarySink.empty
  rw [show Sink.bytes (p.runAll true params inputs BinarySink.empty) =
    (p.runAll true params inputs BinarySink.empty).content from rfl, hbytes]
  rw [show BinarySink.empty.content = [] from rfl, List.nil_append, decodeRows_images hvalues,
    List.map_map]
  rfl

def visitSchema : Schema Bool :=
  ⟨[⟨"Visit", "Visit", [
    ⟨"ended", .field, (FlaggedTy.plain .dateTime).asNullable,
      fun finished => if finished then .dateTime ⟨-1, 999999999⟩ else .null⟩,
    ⟨"tags", .field, .plain (.list (.enum "Tag")), fun _ => .list [.enum "new", .null]⟩]⟩]⟩

def visitExport : Source := ⟨"#$\x7bended | tags\x7d", "Visit", "binary"⟩

theorem visitSchema_conforming :
    Conforming ⟨fun _ => "Visit", fun _ => "Visit"⟩ visitSchema .empty .empty where
  members := by
    simp [visitSchema, Conforms, Value.isNull, HasShape, FlaggedTy.plain, FlaggedTy.asNullable,
      FlaggedTy.mayBeAbsent, FlaggedTy.isFlagged]
  functions := by simp [Functions.empty]
  params := by simp [Params.get?, Params.empty]

def visitBytes : List UInt8 :=
  [11, 0, 1, 35, 2, 255, 255, 255, 255, 255, 255, 255, 255, 0,
    11, 0, 1, 35, 12, 0, 0, 0, 1, 11, 0, 3, 110, 101, 119, 0]

theorem export_decodes_visits : ∃ r p,
    visitExport.routine visitSchema .empty { policy := .strict } "export" = .ok r ∧
    visitExport.link visitSchema .empty r = .ok p ∧
    Sink.bytes (p.runAll true .empty [true, false] BinarySink.empty) = visitBytes ∧
    decodeRows visitBytes = .ok ([true, false].map fun input =>
      imageRow (r.values visitSchema .empty .empty input BinarySink.empty)) := by
  have hok : ((visitExport.routine visitSchema .empty { policy := .strict } "export").toOption.bind
      fun r => (visitExport.link visitSchema .empty r).toOption.map fun p =>
        Sink.bytes (p.runAll true .empty [true, false] BinarySink.empty) == visitBytes &&
          [true, false].all fun input =>
            (r.values visitSchema .empty .empty input BinarySink.empty).all
              (·.isWithin maxListDepth)) = some true := by
    decide +kernel
  obtain ⟨r, p, hr, hp, h⟩ := Source.exists_program hok
  simp only [Bool.and_eq_true, beq_iff_eq, List.all_eq_true] at h
  refine ⟨r, p, hr, hp, h.1, ?_⟩
  rw [← h.1]
  refine export_decodes visitSchema_conforming ?_ hr hp _ (fun _ _ => rfl) h.2
  simp [Params.get?, Params.empty]

def endSchema : Schema Instant :=
  ⟨[⟨"Visit", "Visit", [⟨"ended", .field, .plain .dateTime, fun t => .dateTime t⟩]⟩]⟩

def endExport : Source := ⟨"$\x7bended\x7d", "Visit", "binary"⟩

theorem endSchema_conforming :
    Conforming ⟨fun _ => "Visit", fun _ => "Visit"⟩ endSchema .empty .empty where
  members := by simp [endSchema, Conforms, Value.isNull, HasShape, FlaggedTy.plain]
  functions := by simp [Functions.empty]
  params := by simp [Params.get?, Params.empty]

def isOnlyTime (t : Instant) : List (Value ρ) → Bool
  | [.dateTime u] => u == t
  | _ => false

theorem eq_of_isOnlyTime {t : Instant} {vs : List (Value ρ)} (h : isOnlyTime t vs) :
    vs = [.dateTime t] := by
  match vs, h with
  | [.dateTime u], h => rw [eq_of_beq h]

/-- The middle of the leap second that ended the year 2016. -/
def leapSecond2016 : Instant := ⟨1483228799, 1500000000⟩

/-- A leap second is exported as the milliseconds after it. Those are no longer in that second, and at
the end of the calendar they have no date. -/
theorem export_decodes_leapSecond : ∃ r p,
    endExport.routine endSchema .empty { policy := .strict } "export" = .ok r ∧
    endExport.link endSchema .empty r = .ok p ∧
    Conforming ⟨fun _ => "Visit", fun _ => "Visit"⟩ endSchema .empty .empty ∧
    Instant.lastLeap.date = .last ∧ Instant.lastLeap.second = 60 ∧
    r.values endSchema .empty .empty .lastLeap BinarySink.empty = [.dateTime .lastLeap] ∧
    decodeRows (Sink.bytes (p.runAll true .empty [.lastLeap] BinarySink.empty)) =
      .error (.dateTimeOutOfRange 0 8210266876800999) ∧
    leapSecond2016.floored = leapSecond2016 ∧
    r.values endSchema .empty .empty leapSecond2016 BinarySink.empty =
      [.dateTime leapSecond2016] ∧
    decodeRows (Sink.bytes (p.runAll true .empty [leapSecond2016] BinarySink.empty)) =
      .ok [[.dateTime ⟨1483228800, 500000000⟩]] := by
  have hok : ((endExport.routine endSchema .empty { policy := .strict } "export").toOption.bind
      fun r => (endExport.link endSchema .empty r).toOption.map fun p =>
        [Instant.lastLeap, leapSecond2016].map fun t =>
          (isOnlyTime t (r.values endSchema .empty .empty t BinarySink.empty),
            Sink.bytes (p.runAll true .empty [t] BinarySink.empty))) =
      some [(true, [2, 0, 29, 43, 49, 184, 179, 239, 231, 0]),
        (true, [2, 0, 0, 1, 89, 87, 83, 101, 244, 0])] := by
    decide +kernel
  obtain ⟨r, p, hr, hp, h⟩ := Source.exists_program hok
  simp only [List.map_cons, List.map_nil, List.cons.injEq, Prod.mk.injEq, and_true] at h
  obtain ⟨⟨hlast, hbytes⟩, h2016, hbytes2016⟩ := h
  refine ⟨r, p, hr, hp, endSchema_conforming, by decide +kernel, by decide +kernel,
    eq_of_isOnlyTime hlast, ?_, by decide, eq_of_isOnlyTime h2016, ?_⟩
  · rw [hbytes]
    rfl
  · rw [hbytes2016]
    rfl

end PathTemplate
