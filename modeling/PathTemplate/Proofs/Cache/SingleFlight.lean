import PathTemplate.Proofs.Cache.Interleaving
import PathTemplate.Proofs.Cache.Memory

/-!
How often programs are built when many ask for them at once. As long as its entry stays, a key is
built for once and all get that program. Without that, a gate keeps others out only while it is the
gate of its key: a request that leaves may take away a gate that others still wait for.
-/

namespace PathTemplate.Cache

namespace Phase

variable {ε π : Type}

def isOpen : Phase ε π → Bool
  | .ready | .missed | .gated _ | .admitted _ | .building _ => true
  | _ => false

def Agrees (program : π) : Phase ε π → Prop
  | .building _ => False
  | .built _ result | .released _ result | .finished result => result = .ok program
  | _ => True

theorem agrees_of_isOpen {p : Phase ε π} (ho : p.isOpen) (hb : p.isBuilding = false)
    (program : π) : p.Agrees program := by
  cases p <;> simp_all [isOpen, isBuilding, Agrees]

theorem Agrees.not_building {p : Phase ε π} {program : π} (h : p.Agrees program) :
    p.isBuilding = false := by
  cases p <;> simp_all [isBuilding, Agrees]

end Phase

namespace Flight

variable {σ ε π : Type} {build : Request ε π → σ → Except ε π × σ} {now i : Nat}
  {f f' : Flight σ ε π} {key : ContentHash} {template : String}

theorem lookup_filter_ne {gates : List (ContentHash × Nat)} {k : ContentHash} (h : k ≠ key) :
    (gates.filter (·.1 != k)).lookup key = gates.lookup key := by
  induction gates with
  | nil => rfl
  | cons gate rest ih =>
    obtain ⟨k', n⟩ := gate
    by_cases hk : k' = k
    · have hkey : (key == k') = false := by simpa [hk] using Ne.symm h
      simp only [List.filter_cons, hk, bne_self_eq_false, Bool.false_eq_true, if_false, ih]
      rw [List.lookup_cons, ← hk, hkey]
    · have hkeep : (k' != k) = true := by simpa using hk
      simp only [List.filter_cons, hkeep, if_true, List.lookup_cons, ih]

theorem Advance.gate?_of_ne {r : Request ε π} {phase : Phase ε π} {g : Flight σ ε π}
    (h : Advance build now f r phase g) (hne : r.key ≠ key) : g.gate? key = f.gate? key := by
  cases h with
  | make _ _ =>
    have hkey : (key == r.key) = false := by simpa using Ne.symm hne
    simp only [gate?, List.lookup_cons, hkey]
  | remove _ _ => exact lookup_filter_ne hne
  | _ => rfl

/-- Whoever waits for a gate of the key or holds one has the gate that the key has now. -/
def Linked (key : ContentHash) (f : Flight σ ε π) : Prop :=
  ∀ (j : Nat) (r : Request ε π) (gate : Nat), f.requests[j]? = some r → r.key = key →
    r.phase.wanted? = some gate → f.gate? key = some gate

theorem Advance.gate?_self {r : Request ε π} {phase : Phase ε π} {g : Flight σ ε π}
    (h : Advance build now f r phase g) {gate : Nat} (hgate : phase.wanted? = some gate) :
    g.gate? r.key = some gate ∨ r.phase.wanted? = some gate ∧ g.gate? r.key = f.gate? r.key := by
  cases h <;> simp_all [Phase.wanted?, gate?]

theorem linked_step (h : f.step build now i = some f') (hf : f.Linked key)
    (hkept : ∀ r gate result, f.requests[i]? = some r → r.key = key →
      r.phase = .released gate result → f.gate? key = some gate →
      ∀ (j : Nat) (r' : Request ε π), f.requests[j]? = some r' → r'.key = key →
        r'.phase.wanted? ≠ some gate) : f'.Linked key := by
  obtain ⟨r, phase, g, hr, hadv, rfl⟩ := step_advance h
  intro j r' gate hr' hkey hgate
  rcases hadv.setPhase_requests hr hr' with ⟨rfl, rfl⟩ | ⟨-, hother⟩
  · dsimp only at hkey hgate
    subst hkey
    rcases hadv.gate?_self hgate with hnow | ⟨hold, hsame⟩
    · exact hnow
    · exact hsame.trans (hf j r gate hr rfl hold)
  · have hown := hf j r' gate hother hkey hgate
    by_cases hne : r.key = key
    · subst hne
      -- Only a new gate and the removal of one could part the key from the gate of another request.
      cases hadv with
      | make _ hnone =>
        rw [hnone] at hown
        cases hown
      | remove hp hgone =>
        rw [hgone] at hown
        cases hown
        exact absurd hgate (hkept r gate _ hr rfl hp hgone j r' hother hkey)
      | _ => exact hown
    · exact (hadv.gate?_of_ne hne).trans hown

theorem building_unique (hex : f.Exclusive) (hf : f.Linked key) {j : Nat} {r r' : Request ε π}
    (hr : f.requests[i]? = some r) (hr' : f.requests[j]? = some r') (hkey : r.key = key)
    (hkey' : r'.key = key) (hb : r.phase.isBuilding) (hb' : r'.phase.isBuilding) : i = j := by
  cases hp : r.phase <;> simp [hp, Phase.isBuilding] at hb
  cases hp' : r'.phase <;> simp [hp', Phase.isBuilding] at hb'
  next gate gate' =>
    have hgate := hf i r gate hr hkey (by simp [hp, Phase.wanted?])
    have hgate' := hf j r' gate' hr' hkey' (by simp [hp', Phase.wanted?])
    rw [hgate] at hgate'
    cases hgate'
    exact hex i j r r' gate hr hr' (by simp [hp, Phase.held?]) (by simp [hp', Phase.held?])

/-- Number of requests that are building for a key. -/
def building (key : ContentHash) (f : Flight σ ε π) : Nat :=
  f.requests.countP fun r => r.key == key && r.phase.isBuilding

theorem countP_le_one {α : Type} {p : α → Bool} {l : List α}
    (h : ∀ (i j : Nat) (a b : α), l[i]? = some a → l[j]? = some b → p a → p b → i = j) :
    l.countP p ≤ 1 := by
  induction l with
  | nil => simp
  | cons a rest ih =>
    by_cases ha : p a
    · have hrest : rest.countP p = 0 := by
        rw [List.countP_eq_zero]
        intro b hmem hb
        obtain ⟨j, hj⟩ := List.mem_iff_getElem?.mp hmem
        have := h 0 (j + 1) a b rfl hj ha hb
        omega
      have hfirst : (a :: rest).countP p = rest.countP p + 1 := List.countP_cons_of_pos ha
      omega
    · rw [List.countP_cons_of_neg ha]
      refine ih fun i j x y hi hj hx hy => ?_
      have := h (i + 1) (j + 1) x y hi hj hx hy
      omega

theorem building_le_one (hex : f.Exclusive) (hf : f.Linked key) : f.building key ≤ 1 := by
  refine countP_le_one fun i j r r' hr hr' hb hb' => ?_
  simp only [Bool.and_eq_true, beq_iff_eq] at hb hb'
  exact building_unique hex hf hr hr' hb.1 hb'.1 hb.2 hb'.2

/-- Whether a turn leaves gates alone that another request waits for or holds. -/
def keepsGates (f : Flight σ ε π) : Turn → Bool
  | .step _ i =>
    match f.requests[i]? with
    | some ⟨key, _, .released gate _⟩ =>
      f.gate? key != some gate ||
        f.requests.all fun r => r.key != key || r.phase.wanted? != some gate
    | _ => true
  | .sweep _ => true

theorem Run.linked {memory : Memory π} {requests : List (ContentHash × String)} {world : σ}
    {past : List (Flight σ ε π × Turn)} (run : Run build (start memory requests world) past f)
    (hkept : ∀ p ∈ past, p.1.keepsGates p.2) : f.Linked key := by
  induction run with
  | here =>
    intro j r gate hr _ hgate
    rw [(start_requests hr).2] at hgate
    cases hgate
  | @turn past t f f' before taken ih =>
    obtain ⟨hpast, hlast⟩ := List.forall_mem_append.mp hkept
    have hf := ih hpast
    have hturn := hlast (f, t) List.mem_cons_self
    cases t with
    | sweep now =>
      cases taken
      exact hf
    | step now i =>
      refine linked_step taken hf fun r gate result hr hkey hp hgate j r' hr' hkey' hwant => ?_
      obtain ⟨k, _, _⟩ := r
      dsimp only at hkey hp
      subst hkey hp
      simp only [keepsGates, hr, hgate, bne_self_eq_false, Bool.false_or, List.all_eq_true] at hturn
      have := hturn r' (List.mem_of_getElem? hr')
      simp [hkey', hwant] at this

/-- At most one program is built for a key at a time, however the steps of the requests fall, as
long as no request takes away a gate that another one waits for or holds. -/
theorem building_le_one_of_keepsGates {memory : Memory π}
    {requests : List (ContentHash × String)} {world : σ} {past : List (Flight σ ε π × Turn)}
    (run : Run build (start memory requests world) past f)
    (hkept : ∀ p ∈ past, p.1.keepsGates p.2) (key : ContentHash) : f.building key ≤ 1 :=
  building_le_one run.exclusive (run.linked hkept)

def crowd (σ ε π : Type) (world : σ) (count : Nat) : Flight σ ε π :=
  start (.empty 1 none) (List.replicate count (⟨0⟩, "")) world

def refusing : Request Unit Nat → Unit → Except Unit Nat × Unit := fun _ world => (.error (), world)

def stepsOf (i count : Nat) : List Turn := List.replicate count (.step 0 i)

/-- The first request fails, and lets the second in before it takes their gate away. The third finds
no gate, makes one of its own and builds beside the second. -/
def overtaking : List Turn :=
  stepsOf 0 4 ++ stepsOf 1 2 ++ stepsOf 0 2 ++ stepsOf 1 2 ++ stepsOf 0 1 ++ stepsOf 2 4

theorem building_overtaken : ¬ ∀ (past : List (Flight Unit Unit Nat × Turn))
    (f : Flight Unit Unit Nat), Run refusing (crowd Unit Unit Nat () 3) past f →
      f.building ⟨0⟩ ≤ 1 := by
  intro h
  have hplay : ((play refusing overtaking [] (crowd Unit Unit Nat () 3)).map
      fun p => p.2.building ⟨0⟩) = some 2 := by
    decide +kernel
  obtain ⟨⟨past, f⟩, hp, hf⟩ := Option.map_eq_some_iff.mp hplay
  have hle := h past f (run_of_play .here hp)
  dsimp only at hf
  omega

theorem building_le_one_in_turn : ∃ past f, Run refusing (crowd Unit Unit Nat () 3) past f ∧
    f.building ⟨0⟩ = 1 ∧ f.building ⟨0⟩ ≤ 1 := by
  have hplay : ((play refusing (stepsOf 0 7 ++ stepsOf 1 4 ++ stepsOf 2 2) []
      (crowd Unit Unit Nat () 3)).map
        fun p => p.1.all (fun q => q.1.keepsGates q.2) && p.2.building ⟨0⟩ == 1) = some true := by
    decide +kernel
  obtain ⟨⟨past, f⟩, hp, hf⟩ := Option.map_eq_some_iff.mp hplay
  simp only [Bool.and_eq_true, List.all_eq_true, beq_iff_eq] at hf
  have run := run_of_play .here hp
  exact ⟨past, f, run, hf.2, building_le_one_of_keepsGates run hf.1 ⟨0⟩⟩

def built? (build : Request ε π → σ → Except ε π × σ) (key : ContentHash) (f : Flight σ ε π) :
    Turn → Option (Except ε π)
  | .step _ i =>
    match f.requests[i]? with
    | some r => if r.key == key && r.phase.isBuilding then some (build r f.world).1 else none
    | none => none
  | .sweep _ => none

def builds (build : Request ε π → σ → Except ε π × σ) (key : ContentHash)
    (past : List (Flight σ ε π × Turn)) : List (Except ε π) :=
  past.filterMap fun p => p.1.built? build key p.2

theorem builds_turn (past : List (Flight σ ε π × Turn)) (f : Flight σ ε π) (t : Turn) :
    builds build key (past ++ [(f, t)]) =
      builds build key past ++ (f.built? build key t).toList := by
  rw [builds, List.filterMap_append]
  cases h : f.built? build key t <;> simp [builds, h]

def keepsEntry (build : Request ε π → σ → Except ε π × σ) (key : ContentHash) (f : Flight σ ε π)
    (t : Turn) : Bool :=
  (f.after? build t).all fun f' =>
    !f.memory.has key || f'.memory.has key

def answer? (f : Flight σ ε π) (i : Nat) : Option (Except ε π) :=
  f.requests[i]?.bind (·.phase.result?)

theorem built?_step {r : Request ε π} (hr : f.requests[i]? = some r) :
    f.built? build key (.step now i) =
      if r.key == key && r.phase.isBuilding then some (build r f.world).1 else none := by
  simp [built?, hr]

/-- How a run stands with a key: nothing has been built and all requests are before an answer, or
one program was built and is the answer of all. -/
inductive Stage (key : ContentHash) (template : String) (f : Flight σ ε π) :
    List (Except ε π) → Prop where
  | before (absent : f.memory.entry? key = none) (linked : f.Linked key)
      (unanswered : ∀ (j : Nat) (r : Request ε π), f.requests[j]? = some r → r.key = key →
        r.phase.isOpen) : Stage key template f []
  | after {program : π} (present : f.memory.has key)
      (only : ∀ e ∈ f.memory.entries, e.key = key → e.template = template ∧ e.program = program)
      (agreed : ∀ (j : Nat) (r : Request ε π), f.requests[j]? = some r → r.key = key →
        r.phase.Agrees program) : Stage key template f [.ok program]

theorem Advance.mem_entries {r : Request ε π} {phase : Phase ε π} {g : Flight σ ε π}
    (h : Advance build now f r phase g) {e : Entry π} (he : e ∈ g.memory.entries) :
    (∃ e₀ ∈ f.memory.entries, e.Same e₀) ∨ r.phase.isBuilding ∧ e.key = r.key := by
  cases h with
  | hit _ hget => exact .inl (Memory.mem_get? hget he)
  | find _ hget => exact .inl (Memory.mem_get? hget he)
  | succeed hp _ =>
    rcases Memory.mem_insert he with rfl | ⟨he, -⟩
    · exact .inr ⟨by simp [hp, Phase.isBuilding], rfl⟩
    · exact .inl ⟨e, he, rfl, rfl, rfl⟩
  | _ => exact .inl ⟨e, he, rfl, rfl, rfl⟩

theorem Advance.entry?_eq_none {r : Request ε π} {phase : Phase ε π} {g : Flight σ ε π}
    (h : Advance build now f r phase g) (hb : r.key = key → r.phase.isBuilding = false)
    (hnone : f.memory.entry? key = none) : g.memory.entry? key = none := by
  rw [Memory.entry?_eq_none] at hnone ⊢
  intro e he hkey
  rcases h.mem_entries he with ⟨e₀, he₀, hsame⟩ | ⟨hbuild, hr⟩
  · exact hnone e₀ he₀ (hsame.1.symm.trans hkey)
  · simp [hb (hr.symm.trans hkey)] at hbuild

theorem Advance.only {r : Request ε π} {phase : Phase ε π} {g : Flight σ ε π}
    (h : Advance build now f r phase g) (hb : r.key = key → r.phase.isBuilding = false)
    {program : π}
    (honly : ∀ e ∈ f.memory.entries, e.key = key → e.template = template ∧ e.program = program) :
    ∀ e ∈ g.memory.entries, e.key = key → e.template = template ∧ e.program = program := by
  intro e he hkey
  rcases h.mem_entries he with ⟨e₀, he₀, hsame⟩ | ⟨hbuild, hr⟩
  · rw [hsame.2.1, hsame.2.2]
    exact honly e₀ he₀ (hsame.1.symm.trans hkey)
  · simp [hb (hr.symm.trans hkey)] at hbuild

theorem Advance.isOpen {r : Request ε π} {phase : Phase ε π} {g : Flight σ ε π}
    (h : Advance build now f r phase g) (hnone : f.memory.entry? r.key = none)
    (ho : r.phase.isOpen) (hb : r.phase.isBuilding = false) : phase.isOpen := by
  have hget := Memory.get?_eq_none hnone now r.template
  cases h <;> simp_all [Phase.isOpen, Phase.isBuilding]

theorem Advance.agrees {r : Request ε π} {phase : Phase ε π} {g : Flight σ ε π}
    (h : Advance build now f r phase g) {program : π} (hp : f.memory.has r.key)
    (honly : ∀ e ∈ f.memory.entries, e.key = r.key →
      e.template = r.template ∧ e.program = program)
    (ha : r.phase.Agrees program) : phase.Agrees program := by
  obtain ⟨e, he⟩ := Memory.has_iff.mp hp
  obtain ⟨hmem, hkey⟩ := Memory.mem_of_entry? he
  obtain ⟨ht, hprogram⟩ := honly e hmem hkey
  obtain ⟨m, hget⟩ := Memory.get?_eq_some he ht now
  cases h <;> simp_all [Phase.Agrees]

/-- The step that ends the building of a program: nobody else was building for the key, so that all
requests for it are answered with this program from now on. -/
theorem stage_built {results : List (Except ε π)} (hf : Stage key template f results)
    (hex : f.Exclusive) {r : Request ε π} (hr : f.requests[i]? = some r) (hkey : r.key = key)
    (ht : r.template = template) (hb : r.phase.isBuilding) {phase : Phase ε π}
    {g : Flight σ ε π} (hadv : Advance build now f r phase g) {program : π}
    (hok : (build r f.world).1 = .ok program) :
    results = [] ∧ Stage key template (g.setPhase i phase) [.ok program] := by
  subst hkey ht
  cases hf with
  | after _ _ agreed => simp [(agreed i r hr rfl).not_building] at hb
  | before absent linked unanswered =>
    cases hadv with
    | @succeed gate built world hp hbuild =>
      obtain rfl : built = program := by simpa [hbuild] using hok
      refine ⟨rfl, .after ?_ ?_ ?_⟩
      · exact Memory.has_insert
      · intro e he hkey
        rcases Memory.mem_insert he with rfl | ⟨-, hne⟩
        · exact ⟨rfl, rfl⟩
        · exact absurd hkey hne
      · intro j r' hr' hkey
        rcases (Advance.succeed hp hbuild).setPhase_requests hr hr' with ⟨-, rfl⟩ | ⟨hj, hother⟩
        · rfl
        · have hidle : r'.phase.isBuilding = false := by
            cases hb' : r'.phase.isBuilding with
            | false => rfl
            | true => exact absurd (building_unique hex linked hother hr hkey rfl hb' hb) hj
          exact Phase.agrees_of_isOpen (unanswered j r' hother hkey) hidle built
    | fail _ hbuild => simp [hbuild] at hok
    | _ => simp_all [Phase.isBuilding]

theorem stage_other {results : List (Except ε π)} (hf : Stage key template f results)
    {r : Request ε π} (hr : f.requests[i]? = some r) (ht : r.key = key → r.template = template)
    (hb : r.key = key → r.phase.isBuilding = false) (h : f.step build now i = some f')
    (hkept : f.memory.has key → f'.memory.has key) :
    Stage key template f' results := by
  obtain ⟨r₀, phase, g, hr₀, hadv, rfl⟩ := step_advance h
  obtain rfl : r₀ = r := Option.some.inj (hr₀.symm.trans hr)
  cases hf with
  | before absent linked unanswered =>
    refine .before (hadv.entry?_eq_none hb absent) ?_ fun j r' hr' hkey => ?_
    · refine linked_step h linked fun r' gate result hr' hkey hp => ?_
      obtain rfl : r' = r₀ := Option.some.inj (hr'.symm.trans hr)
      have := unanswered i r' hr hkey
      simp [hp, Phase.isOpen] at this
    · rcases hadv.setPhase_requests hr hr' with ⟨-, rfl⟩ | ⟨-, hother⟩
      · dsimp only at hkey
        subst hkey
        exact hadv.isOpen absent (unanswered i r₀ hr rfl) (hb rfl)
      · exact unanswered j r' hother hkey
  | after present only agreed =>
    refine .after (hkept present) (hadv.only hb only) fun j r' hr' hkey => ?_
    rcases hadv.setPhase_requests hr hr' with ⟨-, rfl⟩ | ⟨-, hother⟩
    · dsimp only at hkey
      subst hkey
      have only' := only
      rw [← ht rfl] at only'
      exact hadv.agrees present only' (agreed i r₀ hr rfl)
    · exact agreed j r' hother hkey

theorem stage_step {results : List (Except ε π)} (hf : Stage key template f results)
    (hex : f.Exclusive)
    (hcalls : ∀ (j : Nat) (r : Request ε π), f.requests[j]? = some r → r.key = key →
      r.template = template)
    (h : f.step build now i = some f')
    (hok : ∀ result, f.built? build key (.step now i) = some result →
      ∃ program, result = .ok program)
    (hkept : f.memory.has key → f'.memory.has key) :
    Stage key template f' (results ++ (f.built? build key (.step now i)).toList) := by
  obtain ⟨r, phase, g, hr, hadv, heq⟩ := step_advance h
  rw [built?_step hr] at hok ⊢
  by_cases hb : r.key = key ∧ r.phase.isBuilding
  · have hcond : (r.key == key && r.phase.isBuilding) = true := by simpa using hb
    simp only [hcond, if_true] at hok ⊢
    obtain ⟨program, hprogram⟩ := hok _ rfl
    obtain ⟨rfl, hstage⟩ := stage_built hf hex hr hb.1 (hcalls i r hr hb.1) hb.2 hadv hprogram
    rw [hprogram, heq]
    exact hstage
  · have hidle : r.key = key → r.phase.isBuilding = false := by simpa using hb
    have hcond : (r.key == key && r.phase.isBuilding) = false := by simpa using hidle
    simp only [hcond, Bool.false_eq_true, if_false, Option.toList_none, List.append_nil]
    exact stage_other hf hr (hcalls i r hr) hidle h hkept

theorem Stage.sweep {results : List (Except ε π)} (hf : Stage key template f results) (now : Nat)
    (hkept : f.memory.has key → (f.sweep now).memory.has key) :
    Stage key template (f.sweep now) results := by
  cases hf with
  | before absent linked unanswered =>
    refine .before ?_ linked unanswered
    rw [Memory.entry?_eq_none] at absent ⊢
    exact fun e he => absent e (Memory.mem_sweep he)
  | after present only agreed =>
    exact .after (hkept present) (fun e he => only e (Memory.mem_sweep he)) agreed

section

variable {memory : Memory π} {requests : List (ContentHash × String)} {world : σ}
  {past : List (Flight σ ε π × Turn)}

theorem Run.template_eq (run : Run build (start memory requests world) past f)
    (hcalls : ∀ request ∈ requests, request.1 = key → request.2 = template) {j : Nat}
    {r : Request ε π} (hr : f.requests[j]? = some r) (hkey : r.key = key) :
    r.template = template := by
  refine hcalls (r.key, r.template) ?_ hkey
  rw [← run.requests_eq]
  exact List.mem_map_of_mem (List.mem_of_getElem? hr)

theorem Run.stage (run : Run build (start memory requests world) past f)
    (hnew : memory.entry? key = none)
    (hcalls : ∀ request ∈ requests, request.1 = key → request.2 = template)
    (hok : ∀ result ∈ builds build key past, ∃ program, result = .ok program)
    (hkept : ∀ p ∈ past, p.1.keepsEntry build key p.2) :
    Stage key template f (builds build key past) := by
  induction run with
  | here =>
    refine .before hnew ?_ fun j r hr _ => ?_
    · intro j r gate hr _ hgate
      rw [(start_requests hr).2] at hgate
      cases hgate
    · rw [(start_requests hr).2]
      rfl
  | @turn past t f f' before taken ih =>
    obtain ⟨hpast, hlast⟩ := List.forall_mem_append.mp hkept
    rw [builds_turn] at hok ⊢
    obtain ⟨hokpast, hoklast⟩ := List.forall_mem_append.mp hok
    have hf := ih hokpast hpast
    have hkeep : f.memory.has key → f'.memory.has key := by
      have := hlast (f, t) List.mem_cons_self
      simp only [keepsEntry, taken, Option.all_some, Bool.or_eq_true, Bool.not_eq_true'] at this
      intro hsome
      exact this.resolve_left (by simp [hsome])
    cases t with
    | step now i =>
      refine stage_step hf before.exclusive (fun j r => before.template_eq hcalls) taken ?_ hkeep
      exact fun result hresult => hoklast result (by simp [hresult])
    | sweep now =>
      cases taken
      simp only [built?, Option.toList_none, List.append_nil]
      exact hf.sweep now hkeep

/-- However the steps of the requests fall, for a key whose entry stays and whose requests are all
for one template a program is built once at most. The run comes to an end, and then the program was
built once and every request for the key was answered with it. -/
theorem single_flight (run : Run build (start memory requests world) past f)
    (hnew : memory.entry? key = none)
    (hcalls : ∀ request ∈ requests, request.1 = key → request.2 = template)
    (hok : ∀ result ∈ builds build key past, ∃ program, result = .ok program)
    (hkept : ∀ p ∈ past, p.1.keepsEntry build key p.2) :
    (builds build key past).length + f.building key ≤ 1 ∧
    (past.countP fun p => p.2.isStep) ≤ 7 * requests.length ∧
    ((∀ now i, f.step build now i = none) → (∃ request ∈ requests, request.1 = key) →
      ∃ program, builds build key past = [.ok program] ∧
        ∀ i, requests[i]? = some (key, template) → f.answer? i = some (.ok program)) := by
  have hstage := run.stage hnew hcalls hok hkept
  refine ⟨?_, run.steps_le, fun hstuck hsome => ?_⟩
  · generalize builds build key past = results at hstage
    cases hstage with
    | before _ linked _ =>
      have := building_le_one run.exclusive linked
      simpa using this
    | after _ _ agreed =>
      have hidle : f.building key = 0 := by
        refine List.countP_eq_zero.mpr fun r hmem => ?_
        obtain ⟨j, hr⟩ := List.mem_iff_getElem?.mp hmem
        simp only [Bool.and_eq_true, beq_iff_eq, not_and, Bool.not_eq_true]
        exact fun hkey => (agreed j r hr hkey).not_building
      simp [hidle]
  · have hdone := stuck_iff.mp hstuck
    have hat : ∀ {i : Nat} {request : ContentHash × String}, requests[i]? = some request →
        ∃ r, f.requests[i]? = some r ∧ (r.key, r.template) = request := by
      intro i request hi
      rw [← run.requests_eq, List.getElem?_map] at hi
      exact Option.map_eq_some_iff.mp hi
    generalize builds build key past = results at hstage
    cases hstage with
    | before _ _ unanswered =>
      obtain ⟨request, hmem, hkey⟩ := hsome
      obtain ⟨i, hi⟩ := List.mem_iff_getElem?.mp hmem
      obtain ⟨r, hr, heq⟩ := hat hi
      obtain ⟨result, hp⟩ := hdone r (List.mem_of_getElem? hr)
      have := unanswered i r hr (by rw [← hkey, ← heq])
      simp [hp, Phase.isOpen] at this
    | @after program _ _ agreed =>
      refine ⟨program, rfl, fun i hi => ?_⟩
      obtain ⟨r, hr, heq⟩ := hat hi
      obtain ⟨result, hp⟩ := hdone r (List.mem_of_getElem? hr)
      have hagree := agreed i r hr (congrArg Prod.fst heq)
      rw [hp] at hagree
      simp [answer?, hr, hp, Phase.result?, show result = .ok program from hagree]

end

def numbering : Request Unit Nat → Nat → Except Unit Nat × Nat := fun _ n => (.ok n, n + 1)

def meeting : List Turn :=
  stepsOf 2 1 ++ stepsOf 0 4 ++ stepsOf 1 2 ++ stepsOf 0 3 ++ stepsOf 2 5 ++ stepsOf 1 4

theorem single_flight_meeting : ∃ past f, Run numbering (crowd Nat Unit Nat 0 3) past f ∧
    ∃ program, builds numbering ⟨0⟩ past = [.ok program] ∧
      ∀ i, (List.replicate 3 ((⟨0⟩, "") : ContentHash × String))[i]? = some (⟨0⟩, "") →
        f.answer? i = some (.ok program) := by
  have hplay : ((play numbering meeting [] (crowd Nat Unit Nat 0 3)).map fun p =>
      (p.1.all (fun q => q.1.keepsEntry numbering ⟨0⟩ q.2) &&
        (builds numbering ⟨0⟩ p.1).all (·.toOption.isSome)) &&
          p.2.requests.all (·.phase.result?.isSome)) = some true := by
    decide +kernel
  obtain ⟨⟨past, f⟩, hp, hf⟩ := Option.map_eq_some_iff.mp hplay
  simp only [Bool.and_eq_true, List.all_eq_true] at hf
  have run := run_of_play .here hp
  have hstuck : ∀ now i, f.step numbering now i = none := by
    refine stuck_iff.mpr fun r hmem => ?_
    have := hf.2 r hmem
    cases hphase : r.phase <;> simp_all [Phase.result?]
  have hok : ∀ result ∈ builds numbering ⟨0⟩ past, ∃ program, result = .ok program := by
    intro result hmem
    have := hf.1.2 result hmem
    cases result <;> simp_all [Except.toOption]
  exact ⟨past, f, run, (single_flight run rfl (by decide) hok hf.1.1).2.2 hstuck (by decide)⟩

end Flight

end PathTemplate.Cache
