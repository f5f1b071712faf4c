import PathTemplate.Proofs.Cache.SingleFlight

/-!
Gates do not outlive the requests that use them. A gate may be taken away while others still wait
for it, and another gate may then stand in its place; but whatever gate a key has at any time is one
that some request has fetched and has still to take away. With no request under way there is none.
-/

namespace PathTemplate.Cache

def Phase.isUnderWay {ε π : Type} : Phase ε π → Bool
  | .ready | .finished _ => false
  | _ => true

theorem Phase.isUnderWay_of_gate? {ε π : Type} {p : Phase ε π} {gate : Nat}
    (h : p.gate? = some gate) : p.isUnderWay := by
  cases p <;> simp_all [gate?, isUnderWay]

namespace Flight

variable {σ ε π : Type} {build : Request ε π → σ → Except ε π × σ} {now i : Nat}
  {f f' g : Flight σ ε π} {r : Request ε π} {phase : Phase ε π} {key : ContentHash} {gate : Nat}

/-- No key has two gates, and every gate belongs to a request for its key. -/
structure Owned (f : Flight σ ε π) : Prop where
  distinct : (f.gates.map (·.1)).Nodup
  owner : ∀ key gate, (key, gate) ∈ f.gates → ∃ (i : Nat) (r : Request ε π),
    f.requests[i]? = some r ∧ r.key = key ∧ r.phase.gate? = some gate

theorem gate?_eq_none (h : f.gate? key = none) : key ∉ f.gates.map (·.1) := by
  rintro hmem
  obtain ⟨⟨k, n⟩, hgate, rfl⟩ := List.mem_map.mp hmem
  have := List.lookup_eq_none_iff.mp h (k, n) hgate
  simp at this

theorem gate?_of_mem {gates : List (ContentHash × Nat)} (hd : (gates.map (·.1)).Nodup)
    (h : (key, gate) ∈ gates) : gates.lookup key = some gate := by
  induction gates with
  | nil => cases h
  | cons first rest ih =>
    obtain ⟨k, n⟩ := first
    rw [List.map_cons, List.nodup_cons] at hd
    rcases List.mem_cons.mp h with h | h
    · cases h
      exact List.lookup_cons_self
    · have hne : (key == k) = false := by
        refine beq_false_of_ne fun hk => hd.1 ?_
        exact hk ▸ List.mem_map_of_mem (f := (·.1)) h
      rw [List.lookup_cons, hne]
      exact ih hd.2 h

theorem Advance.distinct (h : Advance build now f r phase g)
    (hd : (f.gates.map (·.1)).Nodup) : (g.gates.map (·.1)).Nodup := by
  cases h with
  | make _ hnone => exact List.nodup_cons.mpr ⟨gate?_eq_none hnone, hd⟩
  | remove => exact (List.filter_sublist.map _).nodup hd
  | _ => exact hd

theorem Advance.mem_gates (h : Advance build now f r phase g) (hmem : (key, gate) ∈ g.gates) :
    (key, gate) ∈ f.gates ∨ key = r.key ∧ phase.gate? = some gate := by
  cases h with
  | make =>
    rcases List.mem_cons.mp hmem with hnew | hold
    · cases hnew
      exact .inr ⟨rfl, rfl⟩
    · exact .inl hold
  | remove => exact .inl (List.mem_filter.mp hmem).1
  | _ => exact .inl hmem

theorem Advance.keeps_gate (h : Advance build now f r phase g)
    (hd : (f.gates.map (·.1)).Nodup) (hgate : r.phase.gate? = some gate)
    (hmem : (r.key, gate) ∈ g.gates) : phase.gate? = some gate := by
  cases h with
  | remove =>
    have := (List.mem_filter.mp hmem).2
    simp at this
  | leave hp hother =>
    rw [hp] at hgate
    cases hgate
    exact absurd (gate?_of_mem hd hmem) hother
  | _ => simp_all [Phase.gate?]

theorem owned_step (h : f.step build now i = some f') (hf : f.Owned) : f'.Owned := by
  obtain ⟨r, phase, g, hr, hadv, rfl⟩ := step_advance h
  refine ⟨hadv.distinct hf.distinct, fun key gate hmem => ?_⟩
  have hself : (g.setPhase i phase).requests[i]? = some { r with phase } := by
    rw [setPhase, List.getElem?_modify_eq, hadv.requests_eq, hr]
    rfl
  rcases hadv.mem_gates hmem with hold | ⟨rfl, hnew⟩
  · obtain ⟨j, r', hr', hkey, hgate⟩ := hf.owner key gate hold
    -- Only the owner itself could give the gate up, and then it is not there any more.
    by_cases hj : j = i
    · subst hj
      obtain rfl : r' = r := Option.some.inj (hr'.symm.trans hr)
      subst hkey
      exact ⟨j, _, hself, rfl, hadv.keeps_gate hf.distinct hgate hmem⟩
    · refine ⟨j, r', ?_, hkey, hgate⟩
      rw [setPhase, List.getElem?_modify_ne _ _ (Ne.symm hj), hadv.requests_eq, hr']
  · exact ⟨i, _, hself, rfl, hnew⟩

section

variable {memory : Memory π} {requests : List (ContentHash × String)} {world : σ}
  {past : List (Flight σ ε π × Turn)}

theorem Run.owned (run : Run build (start memory requests world) past f) : f.Owned := by
  refine run.keeps ⟨List.nodup_nil, ?_⟩ owned_step fun h => ⟨h.distinct, h.owner⟩
  intro key gate hmem
  cases hmem

/-- However the steps of the requests fall, whichever of them fail and whatever is swept or evicted,
a key has one gate at most, which belongs to a request for the key that has fetched it and has still
to take it away. So there are no gates when no request is under way. -/
theorem no_gate_leak (run : Run build (start memory requests world) past f) :
    (f.gates.map (·.1)).Nodup ∧
    (∀ key gate, (key, gate) ∈ f.gates → ∃ (i : Nat) (r : Request ε π),
      f.requests[i]? = some r ∧ r.key = key ∧ r.phase.gate? = some gate) ∧
    ((∀ r ∈ f.requests, r.phase.isUnderWay = false) → f.gates = []) := by
  have howned := run.owned
  refine ⟨howned.distinct, howned.owner, fun hidle => ?_⟩
  refine List.eq_nil_iff_forall_not_mem.mpr fun ⟨key, gate⟩ hmem => ?_
  obtain ⟨i, r, hr, -, hgate⟩ := howned.owner key gate hmem
  have := hidle r (List.mem_of_getElem? hr)
  simp [Phase.isUnderWay_of_gate? hgate] at this

end

/-- The gate of the second request is gone while it still builds, and the one that the key has now
is the third's. Once all have come to their end there is none. -/
theorem no_gate_leak_overtaken :
    (∃ past f, Run refusing (crowd Unit Unit Nat () 3) past f ∧ f.gates = [(⟨0⟩, 1)] ∧
      ∃ (i : Nat) (r : Request Unit Nat), f.requests[i]? = some r ∧ r.key = ⟨0⟩ ∧
        r.phase.gate? = some 1) ∧
    ∃ past f, Run refusing (crowd Unit Unit Nat () 3) past f ∧ f.made = 2 ∧ f.gates = [] := by
  constructor
  · have hplay : ((play refusing overtaking [] (crowd Unit Unit Nat () 3)).map
        fun p => p.2.gates) = some [(⟨0⟩, 1)] := by
      decide +kernel
    obtain ⟨⟨past, f⟩, hp, hf⟩ := Option.map_eq_some_iff.mp hplay
    have run := run_of_play .here hp
    exact ⟨past, f, run, hf, (no_gate_leak run).2.1 ⟨0⟩ 1 (by simp_all)⟩
  · have hplay : ((play refusing (overtaking ++ stepsOf 1 3 ++ stepsOf 2 3) []
        (crowd Unit Unit Nat () 3)).map fun p =>
          p.2.made == 2 && p.2.requests.all (!·.phase.isUnderWay)) = some true := by
      decide +kernel
    obtain ⟨⟨past, f⟩, hp, hf⟩ := Option.map_eq_some_iff.mp hplay
    simp only [Bool.and_eq_true, beq_iff_eq, List.all_eq_true, Bool.not_eq_true'] at hf
    have run := run_of_play .here hp
    exact ⟨past, f, run, hf.1, (no_gate_leak run).2.2 hf.2⟩

end Flight

end PathTemplate.Cache
