import PathTemplate.Proofs.Wire.Image
import PathTemplate.Proofs.Wire.Spelling

namespace PathTemplate

open Calendar

theorem Calendar.Date.inRange_of_ofDay? {n : Int} {d : Date} (h : Date.ofDay? n = some d) :
    d.InRange := by
  unfold Date.ofDay? at h
  split at h
  next hn =>
    cases h
    exact hn
  next => cases h

theorem Calendar.Instant.of_ofMillis? {ms : Int} {t : Instant} (h : Instant.ofMillis? ms = some t) :
    t.InRange ∧ t.floored = t := by
  obtain ⟨d, hd, rfl⟩ := Option.map_eq_some_iff.mp h
  have hdate : (⟨ms / 1000, (ms % 1000).toNat * 1000000⟩ : Instant).date = d := by
    unfold Date.ofDay? at hd
    split at hd <;> cases hd
    simp only [Instant.date, Date.mk.injEq]
    omega
  refine ⟨⟨hdate ▸ Date.inRange_of_ofDay? hd, ?_⟩, ?_⟩
  · show (ms % 1000).toNat * 1000000 < 1000000000
    omega
  · simp [Instant.floored]

namespace Wire

open Read ModifiedUtf8

variable {α β : Type}

def Gives (r : Read α) (P : α → Prop) : Prop := ∀ c a c', r c = (.ok a, c') → P a

namespace Gives

variable {P Q : α → Prop} {R : β → Prop} {r : Read α} {f : α → Read β}

theorem pure {a : α} (h : P a) : Gives (Pure.pure a) P := by
  intro c b c' hb
  cases hb
  exact h

theorem fail (e : DecodeError) : Gives (Read.fail e) P := by
  intro c a c' h
  cases h

theorem bind (hr : Gives r P) (hf : ∀ a, P a → Gives (f a) R) : Gives (r >>= f) R := by
  intro c b c' h
  rw [bind_apply] at h
  split at h
  next a c₁ ha => exact hf a (hr c a c₁ ha) c₁ b c' h
  next => cases h

theorem after (hf : ∀ a, Gives (f a) R) : Gives (r >>= f) R :=
  bind (P := fun _ => True) (fun _ _ _ _ => trivial) fun a _ => hf a

end Gives

theorem gives_take (n : Nat) : Gives (take n) fun bytes => bytes.length = n := by
  intro c bytes c' h
  simp only [take] at h
  split at h
  next hlen =>
    cases h
    exact hlen
  next => cases h

theorem gives_length (pos : Nat) : Gives (length pos) fun n => n ≤ maxCount := by
  refine .after fun n => ?_
  have hlt := n.toUInt32.toInt32.toInt_lt
  dsimp only
  split
  · exact .fail _
  · refine .pure ?_
    unfold maxCount
    omega

theorem foldl_bytes_lt (bytes : List UInt8) (a b : Nat) (h : a < b) :
    bytes.foldl (fun n x => n * 256 + x.toNat) a < b * 256 ^ bytes.length := by
  induction bytes generalizing a b with
  | nil => simpa using h
  | cons x bytes ih =>
    have hx := x.toNat_lt
    have hnext := ih (a * 256 + x.toNat) (b * 256) (by omega)
    rwa [Nat.mul_assoc, ← Nat.pow_succ'] at hnext

theorem ofBigEndian_lt (bytes : List UInt8) : Bytes.ofBigEndian bytes < 256 ^ bytes.length := by
  have h := foldl_bytes_lt bytes 0 1 (by decide)
  rwa [Nat.one_mul] at h

theorem gives_unsigned (w : Nat) : Gives (unsigned w) fun n => n < 256 ^ w :=
  (gives_take w).bind fun bytes hlen => .pure (hlen ▸ ofBigEndian_lt bytes)

theorem gives_repeatOnto {P : α → Prop} {r : Read α} (h : Gives r P) (n : Nat) (out : List α)
    (hout : ∀ a ∈ out, P a) :
    Gives (repeatOnto r n out) fun as => as.length = out.length + n ∧ ∀ a ∈ as, P a := by
  induction n generalizing out with
  | zero => exact .pure (by simpa using hout)
  | succ n ih =>
    rw [repeatOnto_succ]
    refine h.bind fun a ha => ?_
    have hmore := ih (a :: out) (List.forall_mem_cons.mpr ⟨ha, hout⟩)
    rw [List.length_cons, Nat.add_right_comm] at hmore
    exact hmore

mutual

/-- The texts in a cell, at any depth. -/
def Cell.strings : Cell → List String
  | .string s => [s]
  | .list items => allStrings items
  | _ => []

def allStrings : List Cell → List String
  | [] => []
  | c :: cs => c.strings ++ allStrings cs

end

def tooLong? (strings : List String) : Option EncodeError :=
  (strings.find? fun s => maxStringLength < encodedLength s.toList).map fun s =>
    .stringTooLong (encodedLength s.toList)

theorem tooLong?_append (a b : List String) :
    tooLong? (a ++ b) = (tooLong? a).or (tooLong? b) := by
  rw [tooLong?, List.find?_append]
  unfold tooLong?
  cases a.find? fun s => maxStringLength < encodedLength s.toList <;> rfl

theorem andThen_error_eq (w : Written) (next : Unit → Written) :
    (w.andThen next).error = w.error.or (next ()).error := by
  unfold Written.andThen
  split
  next h => rw [h]; rfl
  next h => rw [h]; rfl

/-- A text that was read, as far as its length goes. -/
def WasRead (s : String) : Prop :=
  encodedLength s.toList ≤ maxStringLength + s.toList.count '\x00'

/-- A cell that comes back as it is if it can be written at all, and only its texts can forbid
that. -/
structure Cell.Restores (levels : Nat) (c : Cell) : Prop where
  comesBack : c.ComesBack levels
  write_error : c.write.error = tooLong? c.strings
  strings : ∀ s ∈ c.strings, WasRead s

theorem Cell.Restores.leaf {levels : Nat} {c : Cell} (hr : c.InRange) (hd : c.depth = 0)
    (hf : c.floored = c) (hw : c.write.error = none) (hs : c.strings = []) :
    c.Restores levels :=
  ⟨⟨hr, by omega, hf⟩, by rw [hw, hs]; rfl, by simp [hs]⟩

theorem all_restores {levels : Nat} {cs : List Cell} (h : ∀ c ∈ cs, c.Restores levels) :
    (writeAll cs).error = tooLong? (allStrings cs) ∧ ∀ s ∈ allStrings cs, WasRead s := by
  induction cs with
  | nil => exact ⟨rfl, by simp [allStrings]⟩
  | cons c cs ih =>
    obtain ⟨hc, hcs⟩ := List.forall_mem_cons.mp h
    obtain ⟨herror, hstrings⟩ := ih hcs
    rw [writeAll, andThen_error_eq, hc.write_error, herror, allStrings, tooLong?_append]
    exact ⟨rfl, List.forall_mem_append.mpr ⟨hc.strings, hstrings⟩⟩

theorem Cell.Restores.list {levels : Nat} {cs : List Cell} (hlen : cs.length ≤ maxCount)
    (h : ∀ c ∈ cs, c.Restores levels) : (Cell.list cs).Restores (levels + 1) := by
  obtain ⟨herror, hstrings⟩ := all_restores h
  refine ⟨.list fun c hc => (h c hc).comesBack, ?_, hstrings⟩
  rw [Cell.write, andThen_error_eq, herror]
  simp [encodeListHead, hlen, Written.ofExcept, Cell.strings]

theorem gives_string (levels : Nat) : Gives string fun c => c.Restores levels := by
  refine (gives_unsigned 2).bind fun n hn => .after fun start => ?_
  refine (gives_take n).bind fun bytes hlen => ?_
  split
  next cs hcs =>
    have hle := encodedLength_le_of_decode hcs
    have hread : WasRead (String.ofList cs) := by
      rw [WasRead, String.toList_ofList]
      unfold maxStringLength
      omega
    refine .pure ⟨⟨trivial, Nat.zero_le _, rfl⟩, ?_, by simpa [Cell.strings] using hread⟩
    by_cases hfits : encodedLength cs ≤ maxStringLength
    · simp [Cell.write, encodeString, hfits, Written.ofExcept, Cell.strings, tooLong?]
    · simp [Cell.write, encodeString, hfits, Written.ofExcept, Cell.strings, tooLong?,
        Nat.lt_of_not_le hfits]
  next => exact .fail _

theorem gives_scalar {t : Tag} (ht : t ≠ .list) (levels pos : Nat) :
    Gives (payload levels t pos) fun c => c.Restores levels := by
  have hnumber : ∀ (w : Nat) (make : Nat → Cell), (∀ n, (make n).Restores levels) →
      Gives (do return make (← unsigned w)) fun c => c.Restores levels :=
    fun w make h => .after fun n => .pure (h n)
  cases t with
  | list => exact absurd rfl ht
  | endOfRecord =>
    simp only [payload]
    exact .fail _
  | string =>
    simp only [payload]
    exact gives_string levels
  | raw =>
    simp only [payload]
    refine (gives_length pos).bind fun n hn => (gives_take n).bind fun bytes hlen => .pure ?_
    have hfits : bytes.length ≤ maxCount := by omega
    exact .leaf trivial rfl rfl (by simp [Cell.write, encodeRaw, hfits, Written.ofExcept]) rfl
  | dateTime =>
    simp only [payload]
    refine .after fun ms => ?_
    split
    next t ht =>
      obtain ⟨hr, hf⟩ := Instant.of_ofMillis? ht
      exact .pure (.leaf hr rfl (by rw [Cell.floored, hf]) rfl rfl)
    next => exact .fail _
  | date =>
    simp only [payload]
    refine .after fun ms => ?_
    split
    next d hd => exact .pure (.leaf (Date.inRange_of_ofDay? hd) rfl rfl rfl rfl)
    next => exact .fail _
  | _ =>
    simp only [payload]
    exact hnumber _ _ fun _ => .leaf trivial rfl rfl rfl rfl

theorem gives_payload (levels : Nat) (t : Tag) (pos : Nat) :
    Gives (payload levels t pos) fun c => c.Restores levels := by
  by_cases ht : t = .list
  · subst ht
    induction levels generalizing pos with
    | zero =>
      simp only [payload]
      exact .fail _
    | succ levels ih =>
      have hitem : Gives (item levels) fun c => c.Restores levels := by
        refine .after fun place => .after fun t => ?_
        by_cases ht : t = .list
        · exact ht ▸ ih place
        · exact gives_scalar ht levels place
      simp only [payload]
      refine (gives_length pos).bind fun n hn => ?_
      refine (gives_repeatOnto hitem n [] (by simp)).bind fun cs hcs => .pure ?_
      exact .list (by simpa [hcs.1] using hn) hcs.2
  · exact gives_scalar ht levels pos

theorem gives_cell : Gives Read.cell fun c => c.Restores maxListDepth :=
  .after fun pos => .after fun t => gives_payload maxListDepth t pos

/-- A cell that was read is written again and comes back as it was, unless a text in it does not fit
its length field. That takes zero characters: each may have been read from one byte less than it is
written with. -/
theorem cell_restored {c c' : Cursor} {v : Cell} (h : Read.cell c = (.ok v, c')) :
    ((∀ s ∈ v.strings, encodedLength s.toList ≤ maxStringLength) →
      ∃ bytes, v.write.toExcept = .ok bytes ∧
        Read.cell (.ofBytes bytes) = (.ok v, ⟨bytes.length, []⟩)) ∧
    (∀ s, v.strings.find? (fun s => maxStringLength < encodedLength s.toList) = some s →
      v.write.toExcept = .error (.stringTooLong (encodedLength s.toList))) ∧
    ∀ s ∈ v.strings, encodedLength s.toList ≤ maxStringLength + s.toList.count '\x00' := by
  have hv : v.Restores maxListDepth := gives_cell c v c' h
  refine ⟨fun hfit => ?_, fun s hs => ?_, hv.strings⟩
  · have hnone : v.strings.find? (fun s => maxStringLength < encodedLength s.toList) = none := by
      simpa using hfit
    have hw : v.write.error = none := by rw [hv.write_error, tooLong?, hnone]; rfl
    have hback := (v.readsBack maxListDepth hv.comesBack.inRange hw).yields hv.comesBack.depth 0 []
    rw [hv.comesBack.floored, List.append_nil, Nat.zero_add] at hback
    exact ⟨v.write.bytes, by rw [Written.toExcept, hw], hback⟩
  · have hw : v.write.error = some (.stringTooLong (encodedLength s.toList)) := by
      rw [hv.write_error, tooLong?, hs]; rfl
    rw [Written.toExcept, hw]

def loose : List UInt8 := [12, 0, 0, 0, 2, 4, 7, 11, 0, 4, 0xE0, 0x80, 0xA1, 0]

theorem cell_restored_loose :
    Read.cell (.ofBytes loose) = (.ok (.list [.bool true, .string "!\x00"]), ⟨14, []⟩) ∧
    ∃ bytes, (Cell.list [.bool true, .string "!\x00"]).write.toExcept = .ok bytes ∧
      Read.cell (.ofBytes bytes) = (.ok (.list [.bool true, .string "!\x00"]), ⟨bytes.length, []⟩) := by
  have h : Read.cell (.ofBytes loose) = (.ok (.list [.bool true, .string "!\x00"]), ⟨14, []⟩) := by
    rfl
  exact ⟨h, (cell_restored h).1 (by decide)⟩

theorem cell_zeros {n : Nat} (h : n ≤ maxStringLength) :
    Read.cell (.ofBytes (Tag.string.toByte :: (Bytes.bigEndian 2 n ++ List.replicate n 0))) =
      (.ok (.string (String.ofList (List.replicate n '\x00'))), ⟨n + 3, []⟩) := by
  have hstring : Yields string (Bytes.bigEndian 2 n ++ List.replicate n 0)
      (.string (String.ofList (List.replicate n '\x00'))) := by
    refine (yields_unsigned (Nat.lt_of_le_of_lt h (by decide))).bind (.position fun start => ?_)
    refine (yields_take List.length_replicate).last ?_
    rw [decode_zeros]
    exact .pure _
  have hcell : Yields Read.cell
      ([Tag.string.toByte] ++ (Bytes.bigEndian 2 n ++ List.replicate n 0))
      (.string (String.ofList (List.replicate n '\x00'))) := by
    refine .position fun pos => (yields_tag .string).bind ?_
    simp only [payload]
    exact hstring
  have hread := hcell 0 []
  rw [List.append_nil] at hread
  refine hread.trans ?_
  simp only [List.length_append, List.length_singleton, Bytes.bigEndian_length,
    List.length_replicate]
  rw [show 0 + (1 + (2 + n)) = n + 3 by omega]

/-- Half as many zero characters as a text has room for bytes can be read, but not written. -/
theorem cell_not_restored :
    Read.cell (.ofBytes (11 :: 0x80 :: 0 :: List.replicate 32768 0)) =
      (.ok (.string (String.ofList (List.replicate 32768 '\x00'))), ⟨32771, []⟩) ∧
    (Cell.string (String.ofList (List.replicate 32768 '\x00'))).write.toExcept =
      .error (.stringTooLong 65536) := by
  refine ⟨cell_zeros (n := 32768) (by decide), ?_⟩
  have hlen : encodedLength (String.ofList (List.replicate 32768 '\x00')).toList = 65536 := by
    rw [String.toList_ofList, encodedLength_zeros]
  simp only [Cell.write, encodeString, hlen]
  rfl

end Wire

end PathTemplate
