import PathTemplate.Compiler
import PathTemplate.Proofs.Cache.Contents
import PathTemplate.Proofs.Compiler.Fingerprint
import PathTemplate.Proofs.Compiler.Safety

/-!
Caches do not show. Compilers come and go, share a store, compile, sweep and lose what they kept, in
any order; every program that is given out is the one that a compilation with empty caches gives.
The keys cover all that compilation reads: what shares the key of an artifact has the same source
and settings and registrations that agree, so it has the same routine.
-/

namespace PathTemplate

open Cache

variable {ρ : Type}

/-- Something to compile, with the registrations and the settings to compile it under. -/
structure Job (ρ : Type) where
  schema : Schema ρ
  functions : Functions ρ
  config : Config
  source : Source

namespace Job

def key (j : Job ρ) : Key := .ofConfig j.config j.source

/-- The bytes whose hash is the key of the artifact. -/
def artifactBytes (h : HashFunction) (j : Job ρ) : List UInt8 :=
  Packed.word (j.key.hash h).bits.toNat ++ Packed.word (j.schema.fingerprint h).bits.toNat ++
    Packed.word (j.functions.fingerprint h).bits.toNat

def routine (h : HashFunction) (j : Job ρ) : Except CompileError Routine :=
  j.source.routine j.schema j.functions j.config (Key.routineName (j.key.hash h))

def program (h : HashFunction) (j : Job ρ) : Except CompileError (Program ρ) := do
  j.source.link j.schema j.functions (← j.routine h)

def artifact (h : HashFunction) (j : Job ρ) (r : Routine) : Artifact :=
  ⟨Artifact.currentVersion, j.key.artifactHash h j.schema j.functions,
    h (Packed.string j.source.template), r⟩

def isSized (j : Job ρ) : Bool := j.key.isSized && j.schema.isSized && j.functions.isSized

end Job

/-- What the caches rely on for some jobs: the hash tells apart the keys, the schemas, the functions
and the artifacts it is fed with, all lengths fit, and routines come back from their packed form. -/
structure Reliable (h : HashFunction) (jobs : List (Job ρ)) : Prop where
  keys : ∀ a ∈ jobs, ∀ b ∈ jobs, h a.key.packed = h b.key.packed → a.key.packed = b.key.packed
  schemas : ∀ a ∈ jobs, ∀ b ∈ jobs, h a.schema.material = h b.schema.material →
    a.schema.material = b.schema.material
  functions : ∀ a ∈ jobs, ∀ b ∈ jobs, h a.functions.material = h b.functions.material →
    a.functions.material = b.functions.material
  artifacts : ∀ a ∈ jobs, ∀ b ∈ jobs, h (a.artifactBytes h) = h (b.artifactBytes h) →
    a.artifactBytes h = b.artifactBytes h
  sized : ∀ a ∈ jobs, a.isSized
  packing : ∀ a ∈ jobs, ∀ r, a.routine h = .ok r →
    Packed.readRoutine (Packed.routine r) = some (r, [])

theorem Source.routine_settings {schema : Schema ρ} {functions : Functions ρ}
    {config config' : Config} (hpolicy : config.policy = config'.policy)
    (hoptimize : config.optimize = config'.optimize) (hdepth : config.maxDepth = config'.maxDepth)
    (name : String) (src : Source) :
    src.routine schema functions config name = src.routine schema functions config' name := by
  simp only [Source.routine, Source.tree, hpolicy, hoptimize, hdepth]

namespace Reliable

variable {h : HashFunction} {jobs : List (Job ρ)} {a b : Job ρ}

theorem key_eq (hjobs : Reliable h jobs) (ha : a ∈ jobs) (hb : b ∈ jobs)
    (heq : a.key.hash h = b.key.hash h) : a.key = b.key := by
  have hsa := hjobs.sized a ha
  have hsb := hjobs.sized b hb
  simp only [Job.isSized, Bool.and_eq_true] at hsa hsb
  exact Key.eq_of_packed_eq hsa.1.1 hsb.1.1 (hjobs.keys a ha b hb heq)

theorem agree (hjobs : Reliable h jobs) (ha : a ∈ jobs) (hb : b ∈ jobs)
    (hschema : a.schema.fingerprint h = b.schema.fingerprint h)
    (hfunctions : a.functions.fingerprint h = b.functions.fingerprint h) :
    Agree a.schema a.functions b.schema b.functions := by
  have hsa := hjobs.sized a ha
  have hsb := hjobs.sized b hb
  simp only [Job.isSized, Bool.and_eq_true] at hsa hsb
  exact Agree.of_material hsa.1.2 hsb.1.2 hsa.2 hsb.2 (hjobs.schemas a ha b hb hschema)
    (hjobs.functions a ha b hb hfunctions)

theorem routine_eq (hjobs : Reliable h jobs) (ha : a ∈ jobs) (hb : b ∈ jobs)
    (heq : a.key.artifactHash h a.schema a.functions = b.key.artifactHash h b.schema b.functions) :
    a.routine h = b.routine h := by
  have hbytes := hjobs.artifacts a ha b hb heq
  simp only [Job.artifactBytes, List.append_assoc] at hbytes
  have hfits : ∀ hash : ContentHash, hash.bits.toNat < 2 ^ 64 := fun hash => hash.bits.toNat_lt
  obtain ⟨hkey, hbytes⟩ := Packed.delimited_word _ _ (hfits _) (hfits _) _ _ hbytes
  obtain ⟨hschema, hbytes⟩ := Packed.delimited_word _ _ (hfits _) (hfits _) _ _ hbytes
  obtain ⟨hfunctions, -⟩ := Packed.delimited_word _ _ (hfits _) (hfits _) [] []
    (by simpa using hbytes)
  have hback : ∀ {x y : ContentHash}, id x.bits.toNat = id y.bits.toNat → x = y := by
    rintro ⟨x⟩ ⟨y⟩ hxy
    exact congrArg ContentHash.mk (UInt64.toNat_inj.mp hxy)
  have hkeys := hjobs.key_eq ha hb (hback hkey)
  have hagree := hjobs.agree ha hb (hback hschema) (hback hfunctions)
  have hsource : a.source = b.source := congrArg Key.source hkeys
  have hpolicy : a.config.policy = b.config.policy := congrArg Key.policy hkeys
  have hoptimize : a.config.optimize = b.config.optimize := congrArg Key.optimize hkeys
  have hdepth : a.config.maxDepth = b.config.maxDepth := congrArg Key.maxDepth hkeys
  rw [Job.routine, Job.routine, hkeys, hsource, Source.routine_agree hagree,
    Source.routine_settings hpolicy hoptimize hdepth]

end Reliable

def Cache.Store.Keeps (h : HashFunction) (jobs : List (Job ρ)) (store : Store) : Prop :=
  ∀ file ∈ store.files, ∀ content, file.content = some content →
    ∃ j ∈ jobs, ∃ r, j.routine h = .ok r ∧ content = (j.artifact h r).packed

namespace Compiler

variable {h : HashFunction} {jobs : List (Job ρ)} {c : Compiler ρ} {s : Source} {now : Nat}
  {w w' : Workshop}

def job (c : Compiler ρ) (s : Source) : Job ρ := ⟨c.schema, c.functions, c.config, s⟩

theorem stored?_sound (hjobs : Reliable h jobs) (hjob : c.job s ∈ jobs) (hw : w.2.Keeps h jobs)
    {r : Routine} (hr : c.stored? h now s w = some (r, w')) :
    (c.job s).routine h = .ok r ∧ w'.2.Keeps h jobs := by
  unfold stored? at hr
  split at hr
  · cases hr
  · split at hr
    · cases hr
    next r' store hload =>
      cases hr
      constructor
      · obtain ⟨file, hmem, content, a, hcontent, hread, hkey, rfl⟩ := Store.load_eq_some hload
        obtain ⟨j, hj, r, hroutine, rfl⟩ := hw file hmem content hcontent
        have hversion : (j.artifact h r).version < 2 ^ 32 := by
          simp [Job.artifact, Artifact.currentVersion]
        have hback : Artifact.read? (j.artifact h r).packed = some (j.artifact h r) :=
          Artifact.read?_packed hversion (hjobs.packing j hj r hroutine)
        rw [hback] at hread
        cases hread
        rw [← hjobs.routine_eq hj hjob hkey]
        exact hroutine
      · intro file hfile content hcontent
        obtain ⟨file₀, hmem, hsame⟩ := Store.mem_load hload hfile
        exact hw file₀ hmem content (hsame.trans hcontent)

theorem generate_sound (hjob : c.job s ∈ jobs) (hw : w.2.Keeps h jobs) {r : Routine}
    (hr : c.generate h now s w = .ok (r, w')) :
    (c.job s).routine h = .ok r ∧ w'.2.Keeps h jobs := by
  unfold generate at hr
  obtain ⟨r', hroutine, hr⟩ := bind_eq_ok.mp hr
  cases pure_eq_ok.mp hr
  refine ⟨hroutine, ?_⟩
  dsimp only
  split
  · exact hw
  · intro file hfile content hcontent
    rcases Store.mem_save hfile with hold | hnew
    · exact hw file hold content hcontent
    · rw [hnew] at hcontent
      cases hcontent
      exact ⟨c.job s, hjob, r, hroutine, rfl⟩

theorem link_sound {r : Routine} (hr : (c.job s).routine h = .ok r) :
    (c.link s r w).2.2 = w.2 ∧
      ∀ renderer, (c.link s r w).1 = .ok renderer → (c.job s).program h = .ok renderer.program := by
  unfold link
  cases hlink : s.link c.schema c.functions r with
  | error e =>
    refine ⟨rfl, ?_⟩
    intro renderer hrenderer
    cases hrenderer
  | ok program =>
    refine ⟨rfl, ?_⟩
    intro renderer hrenderer
    cases hrenderer
    exact bind_eq_ok.mpr ⟨r, hr, hlink⟩

theorem build_sound (hjobs : Reliable h jobs) (hjob : c.job s ∈ jobs) (now : Nat) (w : Workshop)
    (hw : w.2.Keeps h jobs) :
    (c.build h now s w).2.2.Keeps h jobs ∧ ∀ renderer, (c.build h now s w).1 = .ok renderer →
      (c.job s).program h = .ok renderer.program := by
  have hlink : ∀ {r w'}, (c.job s).routine h = .ok r → w'.2.Keeps h jobs →
      (c.link s r w').2.2.Keeps h jobs ∧ ∀ renderer, (c.link s r w').1 = .ok renderer →
        (c.job s).program h = .ok renderer.program := by
    intro r w' hr hw'
    obtain ⟨hstore, hprogram⟩ := link_sound (w := w') hr
    exact ⟨hstore ▸ hw', hprogram⟩
  unfold build
  cases hstored : c.stored? h now s w with
  | some found =>
    obtain ⟨hr, hw'⟩ := stored?_sound hjobs hjob hw hstored
    exact hlink hr hw'
  | none =>
    cases hgenerate : c.generate h now s w with
    | error e =>
      refine ⟨hw, ?_⟩
      intro renderer hrenderer
      cases hrenderer
    | ok made =>
      obtain ⟨hr, hw'⟩ := generate_sound hjob hw hgenerate
      exact hlink hr hw'

/-- The program of a template, compiled with empty caches. -/
def fresh (h : HashFunction) (c : Compiler ρ) (type : Shape ρ) (sink template : String) :
    Except CompilerError (Program ρ) := do
  let s ← c.source type sink template
  ((c.job s).program h).mapError .compile

def Makes (h : HashFunction) (jobs : List (Job ρ)) (c : Compiler ρ) (key : ContentHash)
    (renderer : Renderer ρ) : Prop :=
  ∃ s, c.job s ∈ jobs ∧ (c.job s).key.hash h = key ∧ (c.job s).program h = .ok renderer.program

theorem Makes.program_eq (hjobs : Reliable h jobs) (hjob : c.job s ∈ jobs) {renderer : Renderer ρ}
    (hm : c.Makes h jobs ((c.job s).key.hash h) renderer) :
    (c.job s).program h = .ok renderer.program := by
  obtain ⟨s', hjob', hkey, hprogram⟩ := hm
  obtain rfl : s' = s := congrArg Key.source (hjobs.key_eq hjob' hjob hkey)
  exact hprogram

variable {type : Shape ρ} {sink template : String} {store : Store}

theorem fresh_eq (hs : c.source type sink template = .ok s) {program : Program ρ}
    (hprogram : (c.job s).program h = .ok program) :
    c.fresh h type sink template = .ok program := by
  refine bind_eq_ok.mpr ⟨s, hs, ?_⟩
  rw [hprogram]
  rfl

/-- A compiler whose memory holds the programs of jobs that it would compile itself. -/
def Sound (h : HashFunction) (jobs : List (Job ρ)) (c : Compiler ρ) : Prop :=
  c.memory.All (c.Makes h jobs)

theorem compile_sound (hjobs : Reliable h jobs)
    (hjob : ∀ s, c.source type sink template = .ok s → c.job s ∈ jobs) (now : Nat)
    (hc : c.Sound h jobs) (hstore : store.Keeps h jobs) :
    let (result, c', store') := c.compile h store now type sink template
    (∀ renderer, result = .ok renderer → c.fresh h type sink template = .ok renderer.program) ∧
      c'.Sound h jobs ∧ store'.Keeps h jobs := by
  unfold compile
  cases hs : c.source type sink template with
  | error e =>
    refine ⟨?_, hc, hstore⟩
    intro renderer h
    cases h
  | ok s =>
    have hmem := hjob s hs
    have hbuild := build_sound hjobs hmem now (c.counters, store) hstore
    have hmakes : ∀ renderer, (c.build h now s (c.counters, store)).1 = .ok renderer →
        c.Makes h jobs ((c.job s).key.hash h) renderer :=
      fun renderer hr => ⟨s, hmem, rfl, hbuild.2 renderer hr⟩
    obtain ⟨hresult, hmemory, hworld⟩ := Memory.All.getOrBuild
      (W := fun w : Workshop => w.2.Keeps h jobs) hc hstore ⟨hbuild.1, hmakes⟩ now template
    refine ⟨?_, hmemory, hworld⟩
    intro renderer hrenderer
    exact fresh_eq hs ((hresult renderer (mapError_eq_ok.mp hrenderer)).program_eq hjobs hmem)

theorem compileTogether_sound (hjobs : Reliable h jobs)
    (hjob : ∀ s, c.source type sink template = .ok s → c.job s ∈ jobs) (now : Nat)
    (hc : c.Sound h jobs) (hstore : store.Keeps h jobs) (count : Nat) :
    let (results, c', store') := c.compileTogether h store now type sink template count
    (∀ renderer, .ok renderer ∈ results →
      c.fresh h type sink template = .ok renderer.program) ∧
      c'.Sound h jobs ∧ store'.Keeps h jobs := by
  unfold compileTogether
  cases hs : c.source type sink template with
  | error e =>
    refine ⟨?_, hc, hstore⟩
    intro renderer h
    cases List.eq_of_mem_replicate h
  | ok s =>
    have hmem := hjob s hs
    have hbuild : ∀ (r : Request CompileError (Renderer ρ)) (w : Workshop), w.2.Keeps h jobs →
        (c.build h now s w).2.2.Keeps h jobs ∧ ∀ renderer, (c.build h now s w).1 = .ok renderer →
          c.Makes h jobs ((c.job s).key.hash h) renderer := by
      intro r w hw
      obtain ⟨hkeeps, hprogram⟩ := build_sound hjobs hmem now w hw
      exact ⟨hkeeps, fun renderer hr => ⟨s, hmem, rfl, hprogram renderer hr⟩⟩
    let start : Flight Workshop CompileError (Renderer ρ) :=
      .start c.memory (List.replicate count ((c.job s).key.hash h, template)) (c.counters, store)
    have hstart : start.Sound (c.Makes h jobs) (fun w => w.2.Keeps h jobs)
        ((c.job s).key.hash h) :=
      Flight.sound_start (W := fun w : Workshop => w.2.Keeps h jobs) hc (c.counters, store) hstore
        template count
    have hend := hstart.settle hbuild now
    refine ⟨?_, hend.memory, hend.world⟩
    intro renderer hrenderer
    obtain ⟨result, hmemResult, hok⟩ := List.mem_map.mp hrenderer
    obtain rfl := mapError_eq_ok.mp hok
    exact fresh_eq hs ((hend.results hmemResult).program_eq hjobs hmem)

theorem sweep_sound (hc : c.Sound h jobs) (hstore : store.Keeps h jobs) (now : Nat) :
    let (_, c', store') := c.sweep store now
    c'.Sound h jobs ∧ store'.Keeps h jobs := by
  have hmemory : ({ c with memory := (c.memory.sweep now).2 } : Compiler ρ).Sound h jobs :=
    hc.sweep now
  cases hdisk : c.config.disk with
  | none =>
    simp only [sweep, hdisk]
    exact ⟨hmemory, hstore⟩
  | some disk =>
    simp only [sweep, hdisk]
    exact ⟨hmemory, fun file hfile => hstore file (Store.mem_sweep hfile)⟩

end Compiler

/-- What can happen at a site. Compilers are numbered in the order in which they were started. -/
inductive Event (ρ : Type) where
  | start (schema : Schema ρ) (functions : Functions ρ) (config : Config)
  | compile (i now : Nat) (type : Shape ρ) (sink template : String)
  | compileTogether (i now : Nat) (type : Shape ρ) (sink template : String) (count : Nat)
  | sweep (i now : Nat)
  | evict (i : Nat) (kept : Entry (Renderer ρ) → Bool)
  | remove (kept : File → Bool)

structure Site (ρ : Type) where
  compilers : List (Compiler ρ)
  store : Store

structure Answer (ρ : Type) where
  compiler : Compiler ρ
  type : Shape ρ
  sink : String
  template : String
  results : List (Except CompilerError (Renderer ρ))

namespace Answer

def job? (a : Answer ρ) : Option (Job ρ) :=
  (a.compiler.source a.type a.sink a.template).toOption.map a.compiler.job

theorem job?_eq {c : Compiler ρ} {type : Shape ρ} {sink template : String} {s : Source}
    {results : List (Except CompilerError (Renderer ρ))}
    (hs : c.source type sink template = .ok s) :
    (Answer.mk c type sink template results).job? = some (c.job s) := by
  simp [job?, hs, Except.toOption]

/-- All programs that were given out are those of a compilation with empty caches. -/
def Right (h : HashFunction) (a : Answer ρ) : Prop :=
  ∀ renderer, .ok renderer ∈ a.results →
    a.compiler.fresh h a.type a.sink a.template = .ok renderer.program

end Answer

namespace Site

def ask (site : Site ρ) (i : Nat)
    (change : Compiler ρ → (Compiler ρ × Store) × List (Answer ρ)) : Site ρ × List (Answer ρ) :=
  match site.compilers[i]? with
  | none => (site, [])
  | some c => (⟨site.compilers.set i (change c).1.1, (change c).1.2⟩, (change c).2)

def after (h : HashFunction) (site : Site ρ) : Event ρ → Site ρ × List (Answer ρ)
  | .start schema functions config =>
    match Compiler.create schema functions config true with
    | .ok c => ({ site with compilers := site.compilers ++ [c] }, [])
    | .error _ => (site, [])
  | .compile i now type sink template => site.ask i fun c =>
    let (result, changed) := c.compile h site.store now type sink template
    (changed, [⟨c, type, sink, template, [result]⟩])
  | .compileTogether i now type sink template count => site.ask i fun c =>
    let (results, changed) := c.compileTogether h site.store now type sink template count
    (changed, [⟨c, type, sink, template, results⟩])
  | .sweep i now => site.ask i fun c => ((c.sweep site.store now).2, [])
  | .evict i kept => site.ask i fun c =>
    let memory := { c.memory with entries := c.memory.entries.filter kept }
    (({ c with memory }, site.store), [])
  | .remove kept => ({ site with store := ⟨site.store.files.filter kept⟩ }, [])

def answers (h : HashFunction) : List (Event ρ) → Site ρ → List (Answer ρ)
  | [], _ => []
  | e :: rest, site => (site.after h e).2 ++ answers h rest (site.after h e).1

def jobs (h : HashFunction) (events : List (Event ρ)) (site : Site ρ) : List (Job ρ) :=
  (answers h events site).filterMap Answer.job?

structure Sound (h : HashFunction) (jobs : List (Job ρ)) (site : Site ρ) : Prop where
  compilers : ∀ c ∈ site.compilers, c.Sound h jobs
  store : site.store.Keeps h jobs

variable {h : HashFunction} {jobs : List (Job ρ)} {site : Site ρ}

theorem Sound.ask (hsite : site.Sound h jobs) {i : Nat}
    {change : Compiler ρ → (Compiler ρ × Store) × List (Answer ρ)}
    (he : ∀ a ∈ (site.ask i change).2, ∀ j, a.job? = some j → j ∈ jobs)
    (hchange : ∀ c, c.Sound h jobs → (∀ a ∈ (change c).2, ∀ j, a.job? = some j → j ∈ jobs) →
      (change c).1.1.Sound h jobs ∧ (change c).1.2.Keeps h jobs ∧
        ∀ a ∈ (change c).2, a.Right h) :
    (site.ask i change).1.Sound h jobs ∧ ∀ a ∈ (site.ask i change).2, a.Right h := by
  cases hi : site.compilers[i]? with
  | none =>
    simp only [Site.ask, hi]
    exact ⟨hsite, by simp⟩
  | some c =>
    simp only [Site.ask, hi] at he ⊢
    obtain ⟨hc, hstore, hright⟩ := hchange c (hsite.compilers c (List.mem_of_getElem? hi)) he
    refine ⟨⟨?_, hstore⟩, hright⟩
    intro c' hmem
    rcases List.mem_or_eq_of_mem_set hmem with hold | rfl
    · exact hsite.compilers c' hold
    · exact hc

/-- One event: if its jobs are among the jobs, what is kept still comes from them, and the answers
are right. -/
theorem Sound.after (hjobs : Reliable h jobs) (hsite : site.Sound h jobs) (e : Event ρ)
    (he : ∀ a ∈ (site.after h e).2, ∀ j, a.job? = some j → j ∈ jobs) :
    (site.after h e).1.Sound h jobs ∧ ∀ a ∈ (site.after h e).2, a.Right h := by
  cases e with
  | start schema functions config =>
    have hcreate : Compiler.create schema functions config true =
        .ok ⟨schema, functions, config, .empty config.capacity config.ttl, {}⟩ := by
      simp [Compiler.create]
    simp only [Site.after, hcreate]
    refine ⟨⟨?_, hsite.store⟩, by simp⟩
    intro c hc
    rcases List.mem_append.mp hc with hc | hc
    · exact hsite.compilers c hc
    · rw [List.mem_singleton] at hc
      subst hc
      exact Memory.all_empty _ _
  | compile i now type sink template =>
    refine hsite.ask he ?_
    intro c hc hanswers
    have hjob := fun s hs => hanswers _ (List.mem_singleton.mpr rfl) (c.job s) (Answer.job?_eq hs)
    obtain ⟨hresult, hc', hstore⟩ := Compiler.compile_sound hjobs hjob now hc hsite.store
    refine ⟨hc', hstore, ?_⟩
    intro a ha renderer hrenderer
    rw [List.mem_singleton] at ha
    subst ha
    exact hresult renderer (List.mem_singleton.mp hrenderer).symm
  | compileTogether i now type sink template count =>
    refine hsite.ask he ?_
    intro c hc hanswers
    have hjob := fun s hs => hanswers _ (List.mem_singleton.mpr rfl) (c.job s) (Answer.job?_eq hs)
    obtain ⟨hresults, hc', hstore⟩ :=
      Compiler.compileTogether_sound hjobs hjob now hc hsite.store count
    refine ⟨hc', hstore, ?_⟩
    intro a ha
    rw [List.mem_singleton] at ha
    subst ha
    exact hresults
  | sweep i now =>
    refine hsite.ask he ?_
    intro c hc _
    obtain ⟨hc', hstore⟩ := Compiler.sweep_sound hc hsite.store now
    exact ⟨hc', hstore, by simp⟩
  | evict i kept =>
    refine hsite.ask he ?_
    intro c hc _
    refine ⟨?_, hsite.store, by simp⟩
    intro entry hentry
    exact hc entry (List.mem_filter.mp hentry).1
  | remove kept =>
    refine ⟨⟨hsite.compilers, ?_⟩, by simp [Site.after]⟩
    intro file hfile
    exact hsite.store file (List.mem_filter.mp hfile).1

theorem Sound.answers_right (hjobs : Reliable h jobs) (events : List (Event ρ))
    (hsite : site.Sound h jobs)
    (he : ∀ a ∈ answers h events site, ∀ j, a.job? = some j → j ∈ jobs) :
    ∀ a ∈ answers h events site, a.Right h := by
  induction events generalizing site with
  | nil => simp [answers]
  | cons e rest ih =>
    simp only [answers, List.mem_append] at he ⊢
    obtain ⟨hafter, hright⟩ := hsite.after hjobs e fun a ha => he a (.inl ha)
    rintro a (ha | ha)
    · exact hright a ha
    · exact ih hafter (fun b hb => he b (.inr hb)) a ha

end Site

/-- The caches are transparent. Registrations that agree on names and types give equal routines,
whatever is behind the names; and at a site whose store begins without files, whatever happens
there, every program that a compiler gives out is the one that it makes from the template with
empty caches. -/
theorem compile_transparent :
    (∀ {ρ ρ' : Type} {schema : Schema ρ} {functions : Functions ρ} {schema' : Schema ρ'}
      {functions' : Functions ρ'}, Agree schema functions schema' functions' →
      ∀ (config : Config) (name : String) (src : Source),
        src.routine schema functions config name = src.routine schema' functions' config name) ∧
    ∀ {ρ : Type} (h : HashFunction) (store : Store) (events : List (Event ρ)),
      (∀ file ∈ store.files, file.content = none) → Reliable h (Site.jobs h events ⟨[], store⟩) →
      ∀ a ∈ Site.answers h events ⟨[], store⟩, ∀ renderer, .ok renderer ∈ a.results →
        a.compiler.fresh h a.type a.sink a.template = .ok renderer.program := by
  refine ⟨fun hagree => Source.routine_agree hagree, ?_⟩
  intro ρ h store events hstore hjobs
  have hstart : (Site.mk [] store).Sound h (Site.jobs h events ⟨[], store⟩) := by
    refine ⟨by simp, ?_⟩
    intro file hfile content hcontent
    simp [hstore file hfile] at hcontent
  refine hstart.answers_right hjobs events ?_
  intro a ha j hj
  exact List.mem_filterMap.mpr ⟨a, ha, hj⟩

def shoutingSchema : Schema String :=
  ⟨[⟨"Person", "Person", [⟨"name", .field, .plain .string, fun r => .string (r ++ "!")⟩]⟩]⟩

/-- A template is compiled, found in the store by a compiler that reads names in another way, and
found there again by two requests to the first compiler when its memory is gone. -/
def restart : List (Event String) :=
  let config : Config := { policy := .strict, disk := some { dir := "cache" } }
  [.start personSchema .empty config, .compile 0 0 person "text" personGreeting.template,
    .start shoutingSchema .empty { config with capacity := 1 },
    .compile 1 5 person "text" personGreeting.template, .evict 0 fun _ => false,
    .compileTogether 0 7 person "text" personGreeting.template 2]

theorem reliable_restart : Reliable .mixing (Site.jobs .mixing restart ⟨[], .empty⟩) where
  keys := by decide +kernel
  schemas := by decide +kernel
  functions := by decide +kernel
  artifacts := by decide +kernel
  sized := by decide +kernel
  packing := by
    have hsized : ∀ a ∈ Site.jobs .mixing restart ⟨[], .empty⟩,
        (a.routine .mixing).toOption.all Packed.isSizedRoutine := by
      decide +kernel
    intro a ha r hr
    have hr' := hsized a ha
    rw [hr] at hr'
    simpa using Packed.readRoutine_routine hr' []

theorem compile_transparent_restart :
    (Site.answers .mixing restart ⟨[], .empty⟩).length = 3 ∧
    ∀ a ∈ Site.answers .mixing restart ⟨[], .empty⟩, a.results ≠ [] ∧
      ∀ result ∈ a.results, ∃ renderer, result = .ok renderer ∧
        a.compiler.fresh .mixing a.type a.sink a.template = .ok renderer.program := by
  have hall : ∀ a ∈ Site.answers .mixing restart ⟨[], .empty⟩, a.results ≠ [] ∧
      ∀ result ∈ a.results, result.toBool := by
    decide +kernel
  refine ⟨by decide +kernel, ?_⟩
  intro a ha
  refine ⟨(hall a ha).1, ?_⟩
  intro result hresult
  obtain ⟨renderer, rfl⟩ := eq_ok_of_toBool ((hall a ha).2 result hresult)
  exact ⟨renderer, rfl, compile_transparent.2 .mixing .empty restart (by simp [Store.empty])
    reliable_restart a ha renderer hresult⟩

end PathTemplate
