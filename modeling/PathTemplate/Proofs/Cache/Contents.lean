import PathTemplate.Proofs.Cache.Interleaving
import PathTemplate.Proofs.Cache.Memory
import PathTemplate.Proofs.Packed.RoundTrip

namespace PathTemplate.Cache

variable {σ ε π : Type} {P : ContentHash → π → Prop}

namespace Memory

def All (P : ContentHash → π → Prop) (m : Memory π) : Prop := ∀ e ∈ m.entries, P e.key e.program

theorem all_empty (capacity : Nat) (ttl : Option Nat) : (empty capacity ttl).All P := by
  intro e he
  cases he

theorem All.get? {m m' : Memory π} {now : Nat} {key : ContentHash} {template : String}
    {program : π} (hm : m.All P) (h : m.get? now key template = some (program, m')) :
    P key program ∧ m'.All P := by
  constructor
  · unfold Memory.get? at h
    split at h
    · cases h
    next e he =>
      obtain ⟨hmem, hkey⟩ := mem_of_entry? he
      split at h
      · cases h
        exact hkey ▸ hm e hmem
      · cases h
  · intro e he
    obtain ⟨e₀, hmem, hkey, -, hprogram⟩ := mem_get? h he
    rw [hkey, hprogram]
    exact hm e₀ hmem

theorem All.insert {m : Memory π} {now : Nat} {key : ContentHash} {template : String}
    {program : π} (hm : m.All P) (h : P key program) :
    (m.insert now key template program).All P := by
  intro e he
  rcases mem_insert he with rfl | ⟨he, -⟩
  · exact h
  · exact hm e he

theorem All.sweep {m : Memory π} (hm : m.All P) (now : Nat) : (m.sweep now).2.All P :=
  fun e he => hm e (mem_sweep he)

theorem All.getOrBuild {m : Memory π} {key : ContentHash} {build : σ → Except ε π × σ} {s : σ}
    {W : σ → Prop} (hm : m.All P) (hs : W s)
    (hbuild : W (build s).2 ∧ ∀ program, (build s).1 = .ok program → P key program) (now : Nat)
    (template : String) :
    let (result, m', s') := m.getOrBuild now key template build s
    (∀ program, result = .ok program → P key program) ∧ m'.All P ∧ W s' := by
  unfold Memory.getOrBuild
  cases hget : m.get? now key template with
  | some found =>
    obtain ⟨program, m'⟩ := found
    obtain ⟨hp, hm'⟩ := hm.get? hget
    refine ⟨?_, hm', hs⟩
    intro program' h
    cases h
    exact hp
  | none =>
    dsimp only
    split
    next program s' hb =>
      rw [hb] at hbuild
      have hp := hbuild.2 program rfl
      refine ⟨?_, hm.insert hp, hbuild.1⟩
      intro program' h
      cases h
      exact hp
    next e s' hb =>
      rw [hb] at hbuild
      refine ⟨?_, hm, hbuild.1⟩
      intro program h
      cases h

end Memory

def Phase.outcome? : Phase ε π → Option (Except ε π)
  | .built _ result | .released _ result | .finished result => some result
  | _ => none

theorem Phase.outcome?_of_result? {phase : Phase ε π} {result : Except ε π}
    (h : phase.result? = some result) : phase.outcome? = some result := by
  cases phase <;> simp_all [result?, outcome?]

namespace Flight

variable {W : σ → Prop} {key : ContentHash} {build : Request ε π → σ → Except ε π × σ}
  {f f' : Flight σ ε π} {now i : Nat}

/-- Requests for one key whose answers so far are right, over a memory and a world that are. -/
structure Sound (P : ContentHash → π → Prop) (W : σ → Prop) (key : ContentHash)
    (f : Flight σ ε π) : Prop where
  memory : f.memory.All P
  world : W f.world
  requests : ∀ (j : Nat) (r : Request ε π), f.requests[j]? = some r → r.key = key ∧
    ∀ program, r.phase.outcome? = some (.ok program) → P key program

theorem Advance.sound {r : Request ε π} {phase : Phase ε π} {g : Flight σ ε π}
    (h : Advance build now f r phase g) (hf : f.Sound P W key) (hkey : r.key = key)
    (hr : ∀ program, r.phase.outcome? = some (.ok program) → P key program)
    (hbuild : ∀ r w, W w →
      W (build r w).2 ∧ ∀ program, (build r w).1 = .ok program → P key program) :
    g.memory.All P ∧ W g.world ∧
      ∀ program, phase.outcome? = some (.ok program) → P key program := by
  subst hkey
  cases h with
  | hit _ hget | find _ hget =>
    obtain ⟨hp, hm⟩ := hf.memory.get? hget
    refine ⟨hm, hf.world, ?_⟩
    intro program h
    cases h
    exact hp
  | succeed _ hb =>
    have hbuilt := hbuild r f.world hf.world
    rw [hb] at hbuilt
    have hp := hbuilt.2 _ rfl
    refine ⟨hf.memory.insert hp, hbuilt.1, ?_⟩
    intro program h
    cases h
    exact hp
  | fail _ hb =>
    have hbuilt := hbuild r f.world hf.world
    rw [hb] at hbuilt
    refine ⟨hf.memory, hbuilt.1, ?_⟩
    intro program h
    cases h
  | release hp | remove hp _ | leave hp _ =>
    rw [hp] at hr
    exact ⟨hf.memory, hf.world, hr⟩
  | _ =>
    refine ⟨hf.memory, hf.world, ?_⟩
    intro program h
    cases h

theorem Sound.step (hf : f.Sound P W key)
    (hbuild : ∀ r w, W w → W (build r w).2 ∧ ∀ program, (build r w).1 = .ok program → P key program)
    (h : f.step build now i = some f') : f'.Sound P W key := by
  obtain ⟨r, phase, g, hr, hadv, rfl⟩ := step_advance h
  obtain ⟨hkey, hanswer⟩ := hf.requests i r hr
  obtain ⟨hm, hw, hphase⟩ := hadv.sound hf hkey hanswer hbuild
  refine ⟨hm, hw, ?_⟩
  intro j r' hr'
  rcases hadv.setPhase_requests hr hr' with ⟨-, rfl⟩ | ⟨-, hr'⟩
  · exact ⟨hkey, hphase⟩
  · exact hf.requests j r' hr'

theorem Sound.round (hf : f.Sound P W key)
    (hbuild : ∀ r w, W w →
      W (build r w).2 ∧ ∀ program, (build r w).1 = .ok program → P key program) :
    (f.round build now).Sound P W key := by
  unfold Flight.round
  generalize List.range f.requests.length = turns
  induction turns generalizing f with
  | nil => exact hf
  | cons i turns ih =>
    refine ih ?_
    dsimp only
    cases h : f.step build now i with
    | none => exact hf
    | some f' => exact hf.step hbuild h

theorem Sound.rounds (hf : f.Sound P W key)
    (hbuild : ∀ r w, W w → W (build r w).2 ∧ ∀ program, (build r w).1 = .ok program → P key program)
    (count : Nat) : (f.rounds build now count).Sound P W key := by
  induction count generalizing f with
  | zero => exact hf
  | succ count ih => exact ih (hf.round hbuild)

theorem Sound.settle (hf : f.Sound P W key)
    (hbuild : ∀ r w, W w → W (build r w).2 ∧ ∀ program, (build r w).1 = .ok program → P key program)
    (now : Nat) : (f.settle build now).Sound P W key :=
  hf.rounds hbuild _

theorem sound_start {memory : Memory π} (hm : memory.All P) (world : σ) (hw : W world)
    (template : String) (count : Nat) :
    (start memory (List.replicate count (key, template)) world : Flight σ ε π).Sound P W key := by
  refine ⟨hm, hw, ?_⟩
  intro j r hr
  obtain ⟨hrequest, hready⟩ := start_requests hr
  obtain ⟨rfl, -⟩ : key = r.key ∧ template = r.template := by
    have := List.eq_of_mem_replicate (List.mem_of_getElem? hrequest)
    simpa [eq_comm] using this
  refine ⟨rfl, ?_⟩
  intro program h
  rw [hready] at h
  cases h

theorem Sound.results (hf : f.Sound P W key) {program : π} (h : .ok program ∈ f.results) :
    P key program := by
  obtain ⟨r, hmem, hresult⟩ := List.mem_filterMap.mp h
  obtain ⟨j, hj⟩ := List.mem_iff_getElem?.mp hmem
  exact (hf.requests j r hj).2 program (Phase.outcome?_of_result? hresult)

end Flight

theorem Artifact.read?_packed {a : Artifact} (hversion : a.version < 2 ^ 32)
    (hroutine : Packed.readRoutine (Packed.routine a.routine) = some (a.routine, [])) :
    read? a.packed = some a := by
  obtain ⟨version, ⟨key⟩, ⟨source⟩, routine⟩ := a
  have hkey : key.toNat < 2 ^ 64 := key.toNat_lt
  have hsource : source.toNat < 2 ^ 64 := source.toNat_lt
  have hversion' : version < 256 ^ 4 := hversion
  simp [read?, packed, Packed.readUint_uint hversion', Packed.readWord_word hkey,
    Packed.readWord_word hsource, hroutine]

namespace Store

variable {s s' : Store} {now : Nat} {key source : ContentHash} {r : Routine}

theorem load_eq_some (h : s.load now key source = some (r, s')) :
    ∃ file ∈ s.files, ∃ content a, file.content = some content ∧
      Artifact.read? content = some a ∧ a.key = key ∧ a.routine = r := by
  unfold load at h
  cases ha : s.artifact? key source with
  | none => simp [ha] at h
  | some a =>
    simp only [ha, Option.some.injEq, Prod.mk.injEq] at h
    simp only [artifact?, Option.bind_eq_bind, Option.bind_eq_some_iff] at ha
    obtain ⟨file, hfile, content, hcontent, b, hb, hcheck⟩ := ha
    split at hcheck
    next hfits =>
      cases hcheck
      exact ⟨file, List.mem_of_find?_eq_some hfile, content, a, hcontent, hb, hfits.2.1, h.1⟩
    next => cases hcheck

theorem file?_touched (files : List File) (key : ContentHash) (now : Nat) :
    file? ⟨files.map fun f => if f.key = key then { f with lastAccess := now } else f⟩ key =
      (file? ⟨files⟩ key).map ({ · with lastAccess := now }) := by
  induction files with
  | nil => rfl
  | cons f files ih =>
    by_cases hf : f.key = key
    · simp [file?, hf]
    · simpa [file?, hf] using ih

theorem artifact?_load (h : s.load now key source = some (r, s')) :
    s'.artifact? key source = s.artifact? key source := by
  unfold load at h
  split at h
  · cases h
  · cases h
    rw [artifact?, artifact?, file?_touched]
    cases s.file? key <;> rfl

theorem mem_load (h : s.load now key source = some (r, s')) {file : File} (hf : file ∈ s'.files) :
    ∃ file₀ ∈ s.files, file₀.content = file.content := by
  unfold load at h
  split at h
  · cases h
  · cases h
    obtain ⟨file₀, hmem, rfl⟩ := List.mem_map.mp hf
    refine ⟨file₀, hmem, ?_⟩
    split <;> rfl

theorem mem_save {file : File} (h : file ∈ (s.save now key source r).files) :
    file ∈ s.files ∨
      file.content = some (Artifact.mk Artifact.currentVersion key source r).packed := by
  unfold save at h
  split at h
  · rcases List.mem_append.mp h with h | h
    · exact .inl h
    · rw [List.mem_singleton] at h
      exact .inr (by rw [h])
  · exact .inl h
  · obtain ⟨file₀, hmem, rfl⟩ := List.mem_map.mp h
    by_cases hkey : file₀.key = key
    · exact .inr (by rw [if_pos hkey])
    · exact .inl (by rwa [if_neg hkey])

theorem mem_removeExpired {expired : File → Bool} {files : List File} {file : File}
    (h : file ∈ (removeExpired expired files).2) : file ∈ files := by
  induction files with
  | nil => exact h
  | cons f rest ih =>
    unfold removeExpired at h
    by_cases hexpired : expired f
    · rw [if_pos hexpired] at h
      split at h
      · exact h
      · exact List.mem_cons_of_mem _ (ih h)
    · rw [if_neg hexpired] at h
      rcases List.mem_cons.mp h with h | h
      · exact List.mem_cons.mpr (.inl h)
      · exact List.mem_cons_of_mem _ (ih h)

theorem mem_sweep {ttl : Option Nat} {file : File} (h : file ∈ (s.sweep ttl now).2.files) :
    file ∈ s.files := by
  unfold sweep at h
  split at h
  · exact h
  · exact mem_removeExpired h

end Store

end PathTemplate.Cache
