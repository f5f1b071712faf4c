import PathTemplate.Sink.Text

namespace PathTemplate

open Calendar

namespace Calendar

theorem Date.month_lt (d : Date) : d.civil.month < 100 := by
  simp only [Date.civil]
  split <;> omega

theorem Date.day_lt (d : Date) : d.civil.day < 100 := by
  simp only [Date.civil]
  omega

theorem Instant.secondOfDay_lt (t : Instant) : t.secondOfDay < 86400 := by
  have := Int.emod_lt_of_pos t.seconds (show (0 : Int) < 86400 by decide)
  rw [Instant.secondOfDay]
  omega

namespace Pattern

theorem twoPlaces_zero {n : Nat} (h : n < 100) : twoPlaces .zero n = zeroPadded 2 "" n := by
  revert n
  decide +kernel

theorem yearPlaces_zero (y : Int) : yearPlaces .zero y = yearText y := by
  unfold yearPlaces yearText
  by_cases h : 0 ≤ y ∧ y < 10000
  · have hnat : y.natAbs = y.toNat := by omega
    have hsign : signOf false y = "" := by simp [signOf, h.1]
    rw [if_pos h, if_pos (by omega), signedPadded, hnat, hsign]
  · rw [if_neg h, if_neg (by omega)]
    rfl

theorem format_eq {pieces : List Piece} {m : Moment} {texts : List String}
    (h : pieces.mapM (pieceText m) = some texts) : format pieces m = String.join texts := by
  rw [format, h]

theorem clock_texts (t : Instant) : clock.mapM (pieceText (.ofInstant t)) =
    some [zeroPadded 2 "" t.hour, ":", zeroPadded 2 "" t.minute, ":", zeroPadded 2 "" t.second] := by
  have hday := t.secondOfDay_lt
  have hhour : t.hour < 100 := by rw [Instant.hour]; omega
  have hminute : t.minute < 100 := by rw [Instant.minute]; omega
  have hsecond : t.second < 100 := by rw [Instant.second]; split <;> omega
  simp [clock, pieceText, quantityText, Moment.ofInstant, twoPlaces_zero, hhour, hminute, hsecond]

end Pattern

end Calendar

namespace TextFormat

theorem isoDate_texts (m : Moment) : isoDate.mapM (Pattern.pieceText m) =
    some [yearText m.date.civil.year, "-", zeroPadded 2 "" m.date.civil.month, "-",
      zeroPadded 2 "" m.date.civil.day] := by
  simp [isoDate, Pattern.pieceText, Pattern.quantityText, Pattern.yearPlaces_zero,
    Pattern.twoPlaces_zero m.date.month_lt, Pattern.twoPlaces_zero m.date.day_lt, Date.year]

theorem format_isoDate (d : Date) : Pattern.format isoDate (.ofDate d) = d.text := by
  rw [Pattern.format_eq (isoDate_texts _), Date.text]
  simp [String.join, Moment.ofDate, String.append_assoc]

theorem format_isoDateTime (t : Instant) :
    Pattern.format isoDateTime (.ofInstant t) = t.text := by
  have htexts : isoDateTime.mapM (Pattern.pieceText (.ofInstant t)) = some
      ([yearText t.date.civil.year, "-", zeroPadded 2 "" t.date.civil.month, "-",
        zeroPadded 2 "" t.date.civil.day] ++ "T" ::
      [zeroPadded 2 "" t.hour, ":", zeroPadded 2 "" t.minute, ":", zeroPadded 2 "" t.second] ++
      ["." ++ zeroPadded 3 "" (t.subsecond / 1000000), "Z"]) := by
    have hrest : [Pattern.Piece.wording (.fractionDigits true 3), .literal ['Z']].mapM
        (Pattern.pieceText (.ofInstant t)) =
          some ["." ++ zeroPadded 3 "" (t.subsecond / 1000000), "Z"] := rfl
    simp only [isoDateTime, List.mapM_append, List.mapM_cons, isoDate_texts, Pattern.clock_texts, hrest]
    rfl
  rw [Pattern.format_eq htexts, Instant.text, Date.text, Instant.clockText]
  simp [String.join, String.append_assoc]

variable {ρ : Type}

/-- A value that is no list is written as its plain text, or not at all. -/
theorem standard_text {v : Value ρ} (h : ∀ items, v ≠ .list items) :
    standard.text v = v.text?.getD "" := by
  cases v with
  | list items => exact absurd rfl (h items)
  | dateTime t =>
    exact format_isoDateTime t
  | date d =>
    exact format_isoDate d
  | _ => rfl

end TextFormat

end PathTemplate
