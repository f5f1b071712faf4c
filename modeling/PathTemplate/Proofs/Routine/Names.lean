import PathTemplate.Proofs.Routine.Generation
import PathTemplate.Routine.Listing

namespace PathTemplate.Routine

theorem toString_inj {n n' : Nat} (h : toString n = toString n') : n = n' := by
  simp only [Nat.toString_eq_repr, Nat.repr_eq_ofList_toDigits, String.ofList_inj] at h
  rw [← Nat.ofDigitChars_ten_toDigits (n := n), h, Nat.ofDigitChars_ten_toDigits]

theorem numbered_inj {word word' : String} (h : '_' ∉ word.toList) (h' : '_' ∉ word'.toList)
    {n n' : Nat} (heq : word ++ "_" ++ toString n = word' ++ "_" ++ toString n') :
    word = word' ∧ n = n' := by
  have hchars : word.toList ++ '_' :: (toString n).toList =
      word'.toList ++ '_' :: (toString n').toList := by
    have := congrArg String.toList heq
    simpa using this
  have hword : ∀ {w rest : List Char}, '_' ∉ w → (w ++ '_' :: rest).takeWhile (· != '_') = w := by
    intro w rest hw
    rw [List.takeWhile_append_of_pos fun c hc => by
      rw [bne_iff_ne]
      rintro rfl
      exact hw hc]
    simp
  have hsame : word.toList = word'.toList := by
    rw [← hword h, hchars, hword h']
  rw [hsame] at hchars
  have hnumber : (toString n).toList = (toString n').toList :=
    (List.cons.inj (List.append_cancel_left hchars)).2
  exact ⟨String.toList_inj.mp hsame, toString_inj (String.toList_inj.mp hnumber)⟩

theorem word_ne_numbered {word word' : String} (h : '_' ∉ word.toList) (n : Nat) :
    word ≠ word' ++ "_" ++ toString n := by
  rintro rfl
  simp at h

theorem TempKind.plain_name (k : TempKind) : '_' ∉ k.name.toList := by
  cases k <;> decide

theorem TempKind.name_inj {k k' : TempKind} (h : k.name = k'.name) : k = k' := by
  cases k <;> cases k' <;> first | rfl | exact absurd h (by decide)

theorem mem_tempNames {temps : List TempKind} {name : String} (h : name ∈ Supply.tempNames temps) :
    name = "input" ∨
      ∃ k, ∃ i < temps.count k, name = k.name ++ "_" ++ toString i := by
  induction temps with
  | nil => exact .inl (List.mem_singleton.mp h)
  | cons k earlier ih =>
    rcases List.mem_append.mp h with h | h
    · refine (ih h).imp_right fun ⟨k', i, hi, heq⟩ => ⟨k', i, ?_, heq⟩
      rw [List.count_cons]
      omega
    · refine .inr ⟨k, earlier.count k, ?_, List.mem_singleton.mp h⟩
      rw [List.count_cons_self]
      omega

theorem tempNames_nodup (temps : List TempKind) : (Supply.tempNames temps).Nodup := by
  induction temps with
  | nil => simp [Supply.tempNames]
  | cons k earlier ih =>
    rw [Supply.tempNames, List.nodup_append]
    refine ⟨ih, by simp, fun name hname last hlast => ?_⟩
    rw [List.mem_singleton.mp hlast]
    rcases mem_tempNames hname with rfl | ⟨k', i, hi, rfl⟩
    · exact word_ne_numbered (by decide) _
    · intro heq
      obtain ⟨hk, rfl⟩ := numbered_inj k'.plain_name k.plain_name heq
      obtain rfl := TempKind.name_inj hk
      exact Nat.lt_irrefl _ hi

theorem sinkName_eq {n : Nat} (h : n ≠ 0) : sinkName n = "acc" ++ "_" ++ toString n := if_neg h

theorem sinkName_inj {n n' : Nat} (h : sinkName n = sinkName n') : n = n' := by
  by_cases hn : n = 0
  · by_cases hn' : n' = 0
    · rw [hn, hn']
    · rw [hn, sinkName_eq hn'] at h
      exact absurd h (word_ne_numbered (by decide) n')
  · by_cases hn' : n' = 0
    · rw [hn', sinkName_eq hn] at h
      exact absurd h.symm (word_ne_numbered (by decide) n)
    · rw [sinkName_eq hn, sinkName_eq hn'] at h
      exact (numbered_inj (by decide) (by decide) h).2

/-- No temporary has the name of a sink. -/
theorem tempNames_ne_sinkName {temps : List TempKind} {name : String}
    (h : name ∈ Supply.tempNames temps) (n : Nat) : name ≠ sinkName n := by
  rcases mem_tempNames h with rfl | ⟨k, i, -, rfl⟩
  · by_cases hn : n = 0
    · rw [hn]
      decide
    · rw [sinkName_eq hn]
      exact word_ne_numbered (by decide) n
  · by_cases hn : n = 0
    · rw [hn]
      exact (word_ne_numbered (by decide) i).symm
    · rw [sinkName_eq hn]
      intro heq
      obtain ⟨hk, -⟩ := numbered_inj k.plain_name (by decide) heq
      cases k <;> exact absurd hk (by decide)

theorem tempNames_head (temps : List TempKind) :
    ∃ others, Supply.tempNames temps = "input" :: others := by
  induction temps with
  | nil => exact ⟨[], rfl⟩
  | cons k earlier ih =>
    obtain ⟨others, h⟩ := ih
    exact ⟨_, by rw [Supply.tempNames, h, List.cons_append]⟩

theorem ofTree_tempNames {max : Nat} {name : String} {n : Tree.Node} {r : Routine}
    (h : ofTree max name n = .ok r) : ∃ temps, r.temps = Supply.tempNames temps := by
  obtain ⟨⟨body, s⟩, -, h⟩ := bind_eq_ok.mp h
  obtain rfl := pure_eq_ok.mp h
  exact ⟨s.temps, rfl⟩

end PathTemplate.Routine
