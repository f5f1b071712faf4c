import Mathlib.Algebra.Ring.Nat
import PathTemplate.Cache.Flight

/-!
Requests for programs in any order of their steps. What one step can do is said once; from it follow
what every run keeps: no two requests hold the same gate, a run that can go on no further has
answered every request, and no request takes more than seven steps.
-/

namespace PathTemplate.Cache

variable {σ ε π : Type}

namespace Phase

/-- The gate that the request waits for or holds. -/
def wanted? : Phase ε π → Option Nat
  | .gated gate => some gate
  | .admitted gate => some gate
  | .building gate => some gate
  | .built gate _ => some gate
  | _ => none

def rank : Phase ε π → Nat
  | .ready => 0
  | .missed => 1
  | .gated _ => 2
  | .admitted _ => 3
  | .building _ => 4
  | .built .. => 5
  | .released .. => 6
  | .finished _ => 7

theorem rank_le (p : Phase ε π) : p.rank ≤ 7 := by
  cases p <;> simp [rank]

end Phase

namespace Flight

variable {build : Request ε π → σ → Except ε π × σ} {now i : Nat} {f f' : Flight σ ε π}

/-- A step of a request: the phase it gets to, and the flight with all that it changes besides. -/
inductive Advance (build : Request ε π → σ → Except ε π × σ) (now : Nat) (f : Flight σ ε π)
    (r : Request ε π) : Phase ε π → Flight σ ε π → Prop where
  | hit {program : π} {memory : Memory π} : r.phase = .ready →
      f.memory.get? now r.key r.template = some (program, memory) →
      Advance build now f r (.finished (.ok program)) { f with memory }
  | miss : r.phase = .ready → f.memory.get? now r.key r.template = none →
      Advance build now f r .missed f
  | fetch {gate : Nat} : r.phase = .missed → f.gate? r.key = some gate →
      Advance build now f r (.gated gate) f
  | make : r.phase = .missed → f.gate? r.key = none →
      Advance build now f r (.gated f.made)
        { f with gates := (r.key, f.made) :: f.gates, made := f.made + 1 }
  | enter {gate : Nat} : r.phase = .gated gate → f.isHeld gate = false →
      Advance build now f r (.admitted gate) f
  | find {gate : Nat} {program : π} {memory : Memory π} : r.phase = .admitted gate →
      f.memory.get? now r.key r.template = some (program, memory) →
      Advance build now f r (.built gate (.ok program)) { f with memory }
  | begin {gate : Nat} : r.phase = .admitted gate →
      f.memory.get? now r.key r.template = none → Advance build now f r (.building gate) f
  | succeed {gate : Nat} {program : π} {world : σ} : r.phase = .building gate →
      build r f.world = (.ok program, world) →
      Advance build now f r (.built gate (.ok program))
        { f with memory := f.memory.insert now r.key r.template program, world }
  | fail {gate : Nat} {e : ε} {world : σ} : r.phase = .building gate →
      build r f.world = (.error e, world) →
      Advance build now f r (.built gate (.error e)) { f with world }
  | release {gate : Nat} {result : Except ε π} : r.phase = .built gate result →
      Advance build now f r (.released gate result) f
  | remove {gate : Nat} {result : Except ε π} : r.phase = .released gate result →
      f.gate? r.key = some gate →
      Advance build now f r (.finished result)
        { f with gates := f.gates.filter (·.1 != r.key) }
  | leave {gate : Nat} {result : Except ε π} : r.phase = .released gate result →
      f.gate? r.key ≠ some gate → Advance build now f r (.finished result) f

theorem step_advance (h : f.step build now i = some f') :
    ∃ r phase g, f.requests[i]? = some r ∧ Advance build now f r phase g ∧
      f' = g.setPhase i phase := by
  simp only [step, Option.bind_eq_bind, Option.bind_eq_some_iff] at h
  obtain ⟨r, hr, h⟩ := h
  refine ⟨r, ?_⟩
  split at h
  next hp =>
    split at h <;> cases h
    next hget => exact ⟨_, _, hr, .hit hp hget, rfl⟩
    next hget => exact ⟨_, _, hr, .miss hp hget, rfl⟩
  next hp =>
    split at h <;> cases h
    next hgate => exact ⟨_, _, hr, .fetch hp hgate, rfl⟩
    next hgate => exact ⟨_, _, hr, .make hp hgate, rfl⟩
  next hp =>
    split at h <;> cases h
    next hheld => exact ⟨_, _, hr, .enter hp (by simpa using hheld), rfl⟩
  next hp =>
    split at h <;> cases h
    next hget => exact ⟨_, _, hr, .find hp hget, rfl⟩
    next hget => exact ⟨_, _, hr, .begin hp hget, rfl⟩
  next hp =>
    split at h <;> cases h
    next hb => exact ⟨_, _, hr, .succeed hp hb, rfl⟩
    next hb => exact ⟨_, _, hr, .fail hp hb, rfl⟩
  next hp =>
    cases h
    exact ⟨_, _, hr, .release hp, rfl⟩
  next gate result hp =>
    cases h
    by_cases hgate : f.gate? r.key = some gate
    · exact ⟨_, _, hr, .remove hp hgate, by simp only [if_pos hgate]⟩
    · exact ⟨_, _, hr, .leave hp hgate, by simp only [if_neg hgate]⟩
  next => cases h

theorem Advance.requests_eq {r : Request ε π} {phase : Phase ε π} {g : Flight σ ε π}
    (h : Advance build now f r phase g) : g.requests = f.requests := by
  cases h <;> rfl

theorem Advance.rank_lt {r : Request ε π} {phase : Phase ε π} {g : Flight σ ε π}
    (h : Advance build now f r phase g) : r.phase.rank < phase.rank := by
  cases h <;> simp_all [Phase.rank]

theorem Advance.held {r : Request ε π} {phase : Phase ε π} {g : Flight σ ε π}
    (h : Advance build now f r phase g) {gate : Nat} (hg : phase.held? = some gate) :
    r.phase.held? = some gate ∨ f.isHeld gate = false := by
  cases h <;> simp_all [Phase.held?]

theorem Advance.setPhase_requests {r : Request ε π} {phase : Phase ε π} {g : Flight σ ε π}
    (h : Advance build now f r phase g) (hr : f.requests[i]? = some r) {j : Nat}
    {r' : Request ε π} (hr' : (g.setPhase i phase).requests[j]? = some r') :
    j = i ∧ r' = { r with phase } ∨ j ≠ i ∧ f.requests[j]? = some r' := by
  rw [setPhase, List.getElem?_modify, h.requests_eq] at hr'
  by_cases hij : i = j
  · subst hij
    rw [hr] at hr'
    simp only [if_true, Option.map_eq_map, Option.map_some, Option.some.injEq] at hr'
    exact .inl ⟨rfl, hr'.symm⟩
  · simp only [hij, if_false, id_map'] at hr'
    exact .inr ⟨Ne.symm hij, hr'⟩

inductive Turn where
  | step (now i : Nat)
  | sweep (now : Nat)

def after? (build : Request ε π → σ → Except ε π × σ) (f : Flight σ ε π) :
    Turn → Option (Flight σ ε π)
  | .step now i => f.step build now i
  | .sweep now => some (f.sweep now)

/-- Turns from a first flight to a last one, each with the flight in which it was taken. -/
inductive Run (build : Request ε π → σ → Except ε π × σ) (first : Flight σ ε π) :
    List (Flight σ ε π × Turn) → Flight σ ε π → Prop where
  | here : Run build first [] first
  | turn {past : List (Flight σ ε π × Turn)} {t : Turn} {f f' : Flight σ ε π}
      (before : Run build first past f) (taken : f.after? build t = some f') :
      Run build first (past ++ [(f, t)]) f'

/-- A run of given turns. -/
def play (build : Request ε π → σ → Except ε π × σ) :
    List Turn → List (Flight σ ε π × Turn) → Flight σ ε π →
      Option (List (Flight σ ε π × Turn) × Flight σ ε π)
  | [], past, f => some (past, f)
  | t :: rest, past, f =>
    match f.after? build t with
    | some f' => play build rest (past ++ [(f, t)]) f'
    | none => none

theorem run_of_play {first : Flight σ ε π} {turns : List Turn}
    {past past' : List (Flight σ ε π × Turn)} (before : Run build first past f)
    (h : play build turns past f = some (past', f')) : Run build first past' f' := by
  induction turns generalizing past f with
  | nil =>
    cases h
    exact before
  | cons t rest ih =>
    rw [play] at h
    split at h
    next f₁ ht => exact ih (before.turn ht) h
    next => cases h

/-- What holds at the start and is kept by every turn holds at the end of every run. -/
theorem Run.keeps {P : Flight σ ε π → Prop} {first : Flight σ ε π}
    {past : List (Flight σ ε π × Turn)} (run : Run build first past f) (hfirst : P first)
    (hstep : ∀ {f f' now i}, f.step build now i = some f' → P f → P f')
    (hsweep : ∀ {f : Flight σ ε π} {now}, P f → P (f.sweep now)) : P f := by
  induction run with
  | here => exact hfirst
  | @turn past t f f' before taken ih =>
    cases t with
    | step now i => exact hstep taken ih
    | sweep now =>
      cases taken
      exact hsweep ih

/-- No two requests hold the same gate. -/
def Exclusive (f : Flight σ ε π) : Prop :=
  ∀ (i j : Nat) (r r' : Request ε π) (gate : Nat), f.requests[i]? = some r →
    f.requests[j]? = some r' → r.phase.held? = some gate → r'.phase.held? = some gate → i = j

theorem exclusive_step (h : f.step build now i = some f') (hf : f.Exclusive) : f'.Exclusive := by
  obtain ⟨r, phase, g, hr, hadv, rfl⟩ := step_advance h
  -- The request that took the step shares no gate with another one.
  have halone : ∀ j r' gate, j ≠ i → f.requests[j]? = some r' → phase.held? = some gate →
      r'.phase.held? ≠ some gate := by
    intro j r' gate hj hr' hgate hheld
    rcases hadv.held hgate with hown | hfree
    · exact hj (hf j i r' r gate hr' hr hheld hown)
    · have hnone := List.any_eq_false.mp hfree r' (List.mem_of_getElem? hr')
      simp [hheld] at hnone
  intro a b ra rb gate ha hb hga hgb
  rcases hadv.setPhase_requests hr ha with ⟨hai, rfl⟩ | ⟨hai, ha⟩
  · rcases hadv.setPhase_requests hr hb with ⟨hbi, rfl⟩ | ⟨hbi, hb⟩
    · rw [hai, hbi]
    · exact absurd hgb (halone b rb gate hbi hb hga)
  · rcases hadv.setPhase_requests hr hb with ⟨hbi, rfl⟩ | ⟨hbi, hb⟩
    · exact absurd hga (halone a ra gate hai ha hgb)
    · exact hf a b ra rb gate ha hb hga hgb

theorem start_requests {memory : Memory π} {requests : List (ContentHash × String)} {world : σ}
    {j : Nat} {r : Request ε π}
    (h : (start memory requests world : Flight σ ε π).requests[j]? = some r) :
    requests[j]? = some (r.key, r.template) ∧ r.phase = .ready := by
  simp only [start, List.getElem?_map, Option.map_eq_some_iff] at h
  obtain ⟨request, hj, rfl⟩ := h
  exact ⟨hj, rfl⟩

theorem Run.exclusive {memory : Memory π} {requests : List (ContentHash × String)} {world : σ}
    {past : List (Flight σ ε π × Turn)} (run : Run build (start memory requests world) past f) :
    f.Exclusive := by
  refine run.keeps ?_ exclusive_step fun h => h
  intro a b ra rb gate ha hb hga
  rw [(start_requests ha).2] at hga
  cases hga

theorem Run.requests_eq {memory : Memory π} {requests : List (ContentHash × String)} {world : σ}
    {past : List (Flight σ ε π × Turn)} (run : Run build (start memory requests world) past f) :
    f.requests.map (fun r => (r.key, r.template)) = requests := by
  refine run.keeps (P := fun f => f.requests.map (fun r => (r.key, r.template)) = requests) ?_ ?_ ?_
  · simp [start, Function.comp_def]
  · intro f f' now i h hf
    obtain ⟨r, phase, g, hr, hadv, rfl⟩ := step_advance h
    rw [← hf]
    refine List.ext_getElem? fun j => ?_
    simp only [setPhase, List.getElem?_map, List.getElem?_modify, hadv.requests_eq]
    cases f.requests[j]? with
    | none => rfl
    | some r' => by_cases hij : i = j <;> simp [hij]
  · exact fun h => h

def progress (f : Flight σ ε π) : Nat := (f.requests.map (·.phase.rank)).sum

theorem progress_step (h : f.step build now i = some f') : f.progress < f'.progress := by
  obtain ⟨r, phase, g, hr, hadv, rfl⟩ := step_advance h
  obtain ⟨hi, rfl⟩ := List.getElem?_eq_some_iff.mp hr
  have hlt := hadv.rank_lt
  have hsplit : f.requests = f.requests.take i ++ f.requests[i] :: f.requests.drop (i + 1) := by
    simp
  have hbefore : (f.requests.map (·.phase.rank)).sum = ((f.requests.take i).map (·.phase.rank)).sum +
      (f.requests[i].phase.rank + ((f.requests.drop (i + 1)).map (·.phase.rank)).sum) := by
    have := congrArg (fun l => (l.map (·.phase.rank)).sum) hsplit
    simpa only [List.map_append, List.map_cons, List.sum_append, List.sum_cons] using this
  rw [progress, hbefore, progress, setPhase, hadv.requests_eq, List.modify_eq_take_cons_drop hi]
  simp only [List.map_append, List.map_cons, List.sum_append, List.sum_cons]
  omega

theorem progress_le (f : Flight σ ε π) : f.progress ≤ 7 * f.requests.length := by
  rw [progress]
  induction f.requests with
  | nil => simp
  | cons r rest ih =>
    have := r.phase.rank_le
    simp only [List.map_cons, List.sum_cons, List.length_cons]
    omega

def Turn.isStep : Turn → Bool
  | .step .. => true
  | .sweep _ => false

theorem Run.steps_le {memory : Memory π} {requests : List (ContentHash × String)} {world : σ}
    {past : List (Flight σ ε π × Turn)} (run : Run build (start memory requests world) past f) :
    (past.countP fun p => p.2.isStep) ≤ 7 * requests.length := by
  have hlen : f.requests.length = requests.length := by rw [← run.requests_eq, List.length_map]
  suffices (past.countP fun p => p.2.isStep) ≤ f.progress by
    have := f.progress_le
    omega
  clear hlen
  induction run with
  | here => simp
  | @turn past t f f' before taken ih =>
    rw [List.countP_append, List.countP_singleton]
    cases t with
    | step now i =>
      have hlt := progress_step taken
      have hone : (if Turn.isStep (.step now i) then 1 else 0) = 1 := rfl
      rw [hone]
      omega
    | sweep now =>
      cases taken
      exact ih

theorem step_ne_none {r : Request ε π} (hr : f.requests[i]? = some r)
    (hwait : ∀ gate, r.phase ≠ .gated gate) (hend : r.phase.result? = none) :
    f.step build now i ≠ none := by
  simp only [step, hr, Option.bind_eq_bind, Option.bind_some]
  cases hp : r.phase with
  | gated gate => exact absurd hp (hwait gate)
  | finished result => simp [hp, Phase.result?] at hend
  | _ =>
    dsimp only
    (try split) <;> exact Option.some_ne_none _

/-- A run can go on until all requests are finished: one that waits for a gate waits for another
that can take a step. -/
theorem stuck_iff : (∀ now i, f.step build now i = none) ↔
    ∀ r ∈ f.requests, ∃ result, r.phase = .finished result := by
  constructor
  · intro h r hmem
    obtain ⟨i, hr⟩ := List.mem_iff_getElem?.mp hmem
    cases hp : r.phase with
    | finished result => exact ⟨result, rfl⟩
    | gated gate =>
      cases hheld : f.isHeld gate with
      | false =>
        have := h 0 i
        simp [step, hr, hp, hheld] at this
      | true =>
        obtain ⟨r', hmem', hholds⟩ := List.any_eq_true.mp hheld
        obtain ⟨j, hj⟩ := List.mem_iff_getElem?.mp hmem'
        refine absurd (h 0 j) (step_ne_none hj ?_ ?_)
        · intro gate' hp'
          simp [hp', Phase.held?] at hholds
        · cases hp' : r'.phase <;> simp_all [Phase.held?, Phase.result?]
    | _ => exact absurd (h 0 i) (step_ne_none hr (by simp [hp]) (by simp [hp, Phase.result?]))
  · intro h now i
    cases hr : f.requests[i]? with
    | none => simp [step, hr]
    | some r =>
      obtain ⟨result, hp⟩ := h r (List.mem_of_getElem? hr)
      simp [step, hr, hp]

end Flight

end PathTemplate.Cache
