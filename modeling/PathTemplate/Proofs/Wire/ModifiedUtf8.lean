import PathTemplate.Wire.ModifiedUtf8

namespace PathTemplate.Wire.ModifiedUtf8

theorem encodeChar_length (c : Char) : (encodeChar c).length = charWidth c := by
  unfold encodeChar charWidth
  dsimp only
  split
  · rfl
  split
  · rfl
  split
  · rfl
  split <;> rfl

theorem encodedLength_eq (cs : List Char) : encodedLength cs = (encode cs).length := by
  have h : ∀ (cs : List Char) (n : Nat), cs.foldl (fun n c => n + charWidth c) n =
      n + (encode cs).length := by
    intro cs
    induction cs with
    | nil => simp [encode]
    | cons c cs ih =>
      intro n
      simp only [List.foldl_cons, ih, encode, List.flatMap_cons, List.length_append,
        encodeChar_length]
      omega
  simpa [encodedLength] using h cs 0

theorem lead_two {k : Nat} (h : k < 32) :
    ¬(0xC0 + k).toUInt8 < 0x80 ∧ ((0xC0 + k).toUInt8 &&& 0xE0 == 0xC0) ∧
      ((0xC0 + k).toUInt8 &&& 0x1F).toNat = k := by
  have hall : ∀ k : Fin 32, ¬(0xC0 + k.val).toUInt8 < 0x80 ∧
      ((0xC0 + k.val).toUInt8 &&& 0xE0 == 0xC0) ∧
      ((0xC0 + k.val).toUInt8 &&& 0x1F).toNat = k.val := by decide
  exact hall ⟨k, h⟩

theorem lead_three {k : Nat} (h : k < 16) :
    ¬(0xE0 + k).toUInt8 < 0x80 ∧ ((0xE0 + k).toUInt8 &&& 0xE0 == 0xC0) = false ∧
      ((0xE0 + k).toUInt8 &&& 0xF0 == 0xE0) ∧ ((0xE0 + k).toUInt8 &&& 0x0F).toNat = k := by
  have hall : ∀ k : Fin 16, ¬(0xE0 + k.val).toUInt8 < 0x80 ∧
      ((0xE0 + k.val).toUInt8 &&& 0xE0 == 0xC0) = false ∧
      ((0xE0 + k.val).toUInt8 &&& 0xF0 == 0xE0) ∧
      ((0xE0 + k.val).toUInt8 &&& 0x0F).toNat = k.val := by decide
  exact hall ⟨k, h⟩

theorem continuation {k : Nat} (h : k < 64) :
    isContinuation (0x80 + k).toUInt8 ∧ ((0x80 + k).toUInt8 &&& 0x3F).toNat = k := by
  have hall : ∀ k : Fin 64, isContinuation (0x80 + k.val).toUInt8 ∧
      ((0x80 + k.val).toUInt8 &&& 0x3F).toNat = k.val := by decide
  exact hall ⟨k, h⟩

theorem unitsOnto_one {n : Nat} (h : n < 0x80) (pos : Nat) (out : List Nat) (rest : List UInt8) :
    unitsOnto pos out (n.toUInt8 :: rest) = unitsOnto (pos + 1) (n :: out) rest := by
  have hn : n.toUInt8.toNat = n := by
    simp only [Nat.toUInt8, UInt8.toNat_ofNat']
    omega
  have hlt : n.toUInt8 < 0x80 := UInt8.lt_iff_toNat_lt.mpr (by rw [hn]; exact h)
  rw [unitsOnto.eq_def]
  simp only [hlt, if_true, hn]

theorem unitsOnto_two {n : Nat} (h : n < 0x800) (pos : Nat) (out : List Nat) (rest : List UInt8) :
    unitsOnto pos out (twoBytes n ++ rest) = unitsOnto (pos + 2) (n :: out) rest := by
  obtain ⟨ha, hb, hc⟩ := lead_two (Nat.mod_lt (n / 64) (by decide : 0 < 32))
  obtain ⟨hd, he⟩ := continuation (Nat.mod_lt n (by decide : 0 < 64))
  simp only [twoBytes, List.cons_append, List.nil_append]
  rw [unitsOnto.eq_def]
  simp only [ha, hb, hd, if_true, if_false, twoUnit, hc, he]
  rw [show n / 64 % 32 * 64 + n % 64 = n by omega]

theorem unitsOnto_three {n : Nat} (h : n < 0x10000) (pos : Nat) (out : List Nat)
    (rest : List UInt8) :
    unitsOnto pos out (threeBytes n ++ rest) = unitsOnto (pos + 3) (n :: out) rest := by
  obtain ⟨ha, hb, hc, hd⟩ := lead_three (Nat.mod_lt (n / 4096) (by decide : 0 < 16))
  obtain ⟨he, hf⟩ := continuation (Nat.mod_lt (n / 64) (by decide : 0 < 64))
  obtain ⟨hg, hi⟩ := continuation (Nat.mod_lt n (by decide : 0 < 64))
  simp only [threeBytes, List.cons_append, List.nil_append]
  rw [unitsOnto.eq_def]
  simp only [ha, hb, hc, he, hg, if_true, if_false, threeUnit, hd, hf, hi, Bool.false_eq_true]
  rw [show n / 4096 % 16 * 4096 + n / 64 % 64 * 64 + n % 64 = n by omega]

/-- The 16-bit units of a character: itself, or a pair of surrogates. -/
def unitsOf (c : Char) : List Nat :=
  if c.toNat < 0x10000 then [c.toNat]
  else [0xD800 + (c.toNat - 0x10000) / 0x400, 0xDC00 + (c.toNat - 0x10000) % 0x400]

theorem toNat_valid (c : Char) : c.toNat < 0xD800 ∨ 0xDFFF < c.toNat ∧ c.toNat < 0x110000 :=
  c.valid

theorem unitsOnto_encodeChar (c : Char) (pos : Nat) (out : List Nat) (rest : List UInt8) :
    ∃ pos', unitsOnto pos out (encodeChar c ++ rest) =
      unitsOnto pos' ((unitsOf c).reverse ++ out) rest := by
  have hvalid := toNat_valid c
  by_cases hbmp : c.toNat < 0x10000
  · have hunits : unitsOf c = [c.toNat] := if_pos hbmp
    rw [hunits]
    unfold encodeChar
    dsimp only
    split
    next h0 =>
      rw [h0]
      exact ⟨_, unitsOnto_two (by decide) pos out rest⟩
    split
    next h1 => exact ⟨_, unitsOnto_one h1 pos out rest⟩
    split
    next h2 => exact ⟨_, unitsOnto_two h2 pos out rest⟩
    · exact ⟨_, unitsOnto_three hbmp pos out rest⟩
  · have hunits : unitsOf c = _ := if_neg hbmp
    have henc : encodeChar c = threeBytes (0xD800 + (c.toNat - 0x10000) / 0x400) ++
        threeBytes (0xDC00 + (c.toNat - 0x10000) % 0x400) := by
      unfold encodeChar
      simp only [if_neg hbmp, show ¬c.toNat = 0 by omega, show ¬c.toNat < 0x80 by omega,
        show ¬c.toNat < 0x800 by omega, if_false]
    rw [hunits, henc, List.append_assoc, unitsOnto_three (by omega), unitsOnto_three (by omega)]
    exact ⟨_, rfl⟩

theorem unitsOnto_encode (cs : List Char) (pos : Nat) (out : List Nat) :
    unitsOnto pos out (encode cs) = .ok (out.reverse ++ cs.flatMap unitsOf) := by
  induction cs generalizing pos out with
  | nil => simp [encode, unitsOnto]
  | cons c cs ih =>
    obtain ⟨pos', h⟩ := unitsOnto_encodeChar c pos out (encode cs)
    rw [show encode (c :: cs) = encodeChar c ++ encode cs from List.flatMap_cons, h, ih]
    simp

theorem charsOnto_unitsOf (c : Char) (out : List Char) (rest : List Nat) :
    charsOnto out (unitsOf c ++ rest) = charsOnto (c :: out) rest := by
  have hvalid := toNat_valid c
  by_cases hbmp : c.toNat < 0x10000
  · have hunits : unitsOf c = [c.toNat] := if_pos hbmp
    have hhigh : isHighSurrogate c.toNat = false := by
      simp [isHighSurrogate]
      omega
    have hlow : isLowSurrogate c.toNat = false := by
      simp [isLowSurrogate]
      omega
    rw [hunits, List.singleton_append, charsOnto.eq_def]
    simp only [hhigh, hlow, Bool.false_eq_true, if_false, Char.ofNat_toNat]
  · have hunits : unitsOf c = [_, _] := if_neg hbmp
    have hhigh : isHighSurrogate (0xD800 + (c.toNat - 0x10000) / 0x400) := by
      simp [isHighSurrogate]
      omega
    have hlow : isLowSurrogate (0xDC00 + (c.toNat - 0x10000) % 0x400) := by
      simp [isLowSurrogate]
      omega
    have hsum : 0x10000 + (0xD800 + (c.toNat - 0x10000) / 0x400 - 0xD800) * 0x400 +
        (0xDC00 + (c.toNat - 0x10000) % 0x400 - 0xDC00) = c.toNat := by omega
    rw [hunits, List.cons_append, List.singleton_append, charsOnto.eq_def]
    simp only [hhigh, hlow, if_true, hsum, Char.ofNat_toNat]

theorem charsOnto_units (cs : List Char) (out : List Char) :
    charsOnto out (cs.flatMap unitsOf) = some (out.reverse ++ cs) := by
  induction cs generalizing out with
  | nil => simp [charsOnto]
  | cons c cs ih =>
    rw [List.flatMap_cons, charsOnto_unitsOf, ih]
    simp

theorem decodeGroups_encode (cs : List Char) : decodeGroups (encode cs) = .ok cs := by
  simp [decodeGroups, unitsOnto_encode, charsOnto_units, bind, Except.bind]

theorem unitsOnto_plain {bytes : List UInt8} (h : ∀ b ∈ bytes, b < 0x80) (pos : Nat)
    (out : List Nat) : unitsOnto pos out bytes = .ok (out.reverse ++ bytes.map (·.toNat)) := by
  induction bytes generalizing pos out with
  | nil => simp [unitsOnto]
  | cons b bytes ih =>
    rw [unitsOnto.eq_def]
    simp only [h b List.mem_cons_self, if_true, ih fun b hb => h b (List.mem_cons_of_mem _ hb)]
    simp

theorem charsOnto_plain {units : List Nat} (h : ∀ u ∈ units, u < 0x80) (out : List Char) :
    charsOnto out units = some (out.reverse ++ units.map Char.ofNat) := by
  induction units generalizing out with
  | nil => simp [charsOnto]
  | cons u units ih =>
    have hu := h u List.mem_cons_self
    have hhigh : isHighSurrogate u = false := by
      simp [isHighSurrogate]
      omega
    have hlow : isLowSurrogate u = false := by
      simp [isLowSurrogate]
      omega
    rw [charsOnto.eq_def]
    simp only [hhigh, hlow, Bool.false_eq_true, if_false,
      ih fun u hu => h u (List.mem_cons_of_mem _ hu)]
    simp

theorem decodeGroups_plain {bytes : List UInt8} (h : bytes.all isPlain) :
    decodeGroups bytes = .ok (decodePlain bytes) := by
  have hlt : ∀ b ∈ bytes, b < 0x80 := by
    intro b hb
    have := List.all_eq_true.mp h b hb
    simp only [isPlain, Bool.and_eq_true, decide_eq_true_eq] at this
    exact this.2
  have hunits : ∀ u ∈ bytes.map (·.toNat), u < 0x80 := by
    intro u hu
    obtain ⟨b, hb, rfl⟩ := List.mem_map.mp hu
    exact UInt8.lt_iff_toNat_lt.mp (hlt b hb)
  simp [decodeGroups, unitsOnto_plain hlt, charsOnto_plain hunits, decodePlain, bind, Except.bind]

/-- Reading plain bytes as themselves is only a shortcut. -/
theorem decode_eq_decodeGroups (bytes : List UInt8) : decode bytes = decodeGroups bytes := by
  unfold decode
  split
  next h => exact (decodeGroups_plain h).symm
  next => rfl

theorem decode_encode (cs : List Char) : decode (encode cs) = .ok cs := by
  rw [decode_eq_decodeGroups, decodeGroups_encode]

end PathTemplate.Wire.ModifiedUtf8
