import PathTemplate.Proofs.Wire.Image

namespace PathTemplate.Wire

open ModifiedUtf8

theorem encode_le_of_isPrefix {cs ds : List Char} (h : cs <+: ds) :
    (encode cs).length ≤ (encode ds).length := by
  obtain ⟨rest, rfl⟩ := h
  rw [encode, encode, List.flatMap_append, List.length_append]
  exact Nat.le_add_right _ _

theorem cut_isPrefix (s : String) : (cut s).toList <+: s.toList := by
  rw [cut, String.toList_ofList]
  exact List.take_prefix _ _

theorem encode_cut_le (s : String) : (encode (cut s).toList).length ≤ maxStringLength := by
  rw [← encodedLength_eq]
  exact encodedLength_cut s

theorem encode_le_iff_isPrefix_cut {s : String} {cs : List Char} (h : cs <+: s.toList) :
    (encode cs).length ≤ maxStringLength ↔ cs <+: (cut s).toList := by
  constructor
  · intro hfit
    have hcs : s.toList.take cs.length = cs := (List.prefix_iff_eq_take.mp h).symm
    rw [cut, String.toList_ofList, ← hcs]
    refine List.take_prefix_take_left (Nat.le_findGreatest h.length_le ?_)
    rwa [hcs, encodedLength_eq]
  · intro hcut
    exact Nat.le_trans (encode_le_of_isPrefix hcut) (encode_cut_le s)

theorem encodeStringCut_bytes (s : String) : (encodeStringCut s).1 =
    Tag.string.toByte ::
      (Bytes.bigEndian 2 (encode (cut s).toList).length ++ encode (cut s).toList) := by
  have hwrite := congrArg Written.bytes (write_cut s)
  have hfits := encodedLength_cut s
  simp only [Cell.write, encodeString, hfits, if_true, Written.ofExcept] at hwrite
  rw [← hwrite, stringPayload, encodedLength_eq, tagged]

theorem encodeStringCut_yields (s : String) :
    Yields Read.cell (encodeStringCut s).1 (.string (cut s)) := by
  have hwrite := write_cut s
  have hback := (Cell.string (cut s)).readsBack maxListDepth trivial (congrArg Written.error hwrite)
  have hyields := hback.yields (Nat.zero_le _)
  rwa [hwrite] at hyields

theorem encodeStringCut_flag (s : String) : (encodeStringCut s).2 = true ↔ cut s ≠ s := by
  by_cases hfits : encodedLength s.toList ≤ maxStringLength
  · simp [encodeStringCut, hfits, cut_of_fits hfits]
  · have hne : cut s ≠ s := fun heq => hfits (heq ▸ encodedLength_cut s)
    simp [encodeStringCut, hfits, hne]

/-- Of every text the longest start is written that fits: a start of the text fits if and only if it
is a start of what is kept. The length field counts the bytes behind it, a reader gets what was
kept, wherever it stands and whatever follows it, and the writer says whether that is less than the
text. -/
theorem encodeStringCut_longest (s : String) : ∃ kept missing : String, s = kept ++ missing ∧
    (∀ cs, cs <+: s.toList →
      ((encode cs).length ≤ maxStringLength ↔ cs <+: kept.toList)) ∧
    (∃ field, (encodeStringCut s).1 = Tag.string.toByte :: (field ++ encode kept.toList) ∧
      field.length = 2 ∧ Bytes.ofBigEndian field = (encode kept.toList).length) ∧
    (∀ pos rest, Read.cell ⟨pos, (encodeStringCut s).1 ++ rest⟩ =
      (.ok (.string kept), ⟨pos + (encodeStringCut s).1.length, rest⟩)) ∧
    ((encodeStringCut s).2 = true ↔ kept ≠ s) := by
  obtain ⟨missing, hmissing⟩ := cut_isPrefix s
  have hsplit : s = cut s ++ String.ofList missing := by
    rw [← String.toList_inj, String.toList_append, String.toList_ofList, hmissing]
  have hfield : (encode (cut s).toList).length < Nat.pow 256 2 :=
    Nat.lt_of_le_of_lt (encode_cut_le s) (by decide)
  exact ⟨cut s, String.ofList missing, hsplit, fun cs => encode_le_iff_isPrefix_cut,
    ⟨_, encodeStringCut_bytes s, Bytes.bigEndian_length _ _, Bytes.ofBigEndian_bigEndian hfield⟩,
    encodeStringCut_yields s, encodeStringCut_flag s⟩

end PathTemplate.Wire
