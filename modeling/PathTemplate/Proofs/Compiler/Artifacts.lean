import PathTemplate.Compiler
import PathTemplate.Proofs.Cache.Contents
import PathTemplate.Proofs.Compiler.Safety
import PathTemplate.Proofs.Program.Linking

/-!
A store with any content. Files that are damaged, stale or missing are as good as no store at all.
An artifact counts, though, when its version, its key and its template are right, whatever routine
is in it, and what is in it is linked instead of a new routine. Main statement: the store decides
whether a template compiles just when such a routine links and the template does not compile, or the
other way round; and as long as it does not link, the template does not compile again.
-/

namespace PathTemplate

open PathTemplate.Cache PathTemplate.Routine

variable {ρ : Type}

theorem Source.link_toBool {schema : Schema ρ} {functions : Functions ρ} {config : Config}
    {s : Source} {name : String} {r : Routine}
    (h : s.routine schema functions config name = .ok r) :
    (s.link schema functions r).toBool := by
  obtain ⟨hs, children, ht, hr⟩ := Source.routine_typed h
  obtain ⟨p, hp⟩ := ofTree_links (s := ⟨schema, functions, config.policy, s.input⟩) hs ht hr
  have hlink : s.link schema functions r = .ok p := mapError_eq_ok.mpr hp
  rw [hlink]
  rfl

namespace Compiler

variable {h : HashFunction} {c : Compiler ρ} {s : Source} {now : Nat} {store : Store}

/-- The same compiler, configured without a store. -/
def withoutStore (c : Compiler ρ) : Compiler ρ :=
  { c with config := { c.config with disk := none } }

/-- The artifact that counts for a source: it can be read, and its version, its key and the hash of
its template are right. -/
def artifact? (h : HashFunction) (c : Compiler ρ) (store : Store) (s : Source) : Option Artifact :=
  if c.config.disk.isNone then none
  else store.artifact? ((Key.ofConfig c.config s).artifactHash h c.schema c.functions)
    (h (Packed.string s.template))

/-- The routine that is linked when the program is not in memory. -/
def supplied (h : HashFunction) (c : Compiler ρ) (store : Store) (s : Source) :
    Except CompileError Routine :=
  match c.artifact? h store s with
  | some a => .ok a.routine
  | none => c.routine h s

theorem template_of_source {type : Shape ρ} {sink template : String}
    (hs : c.source type sink template = .ok s) : s.template = template := by
  obtain ⟨name, -, hname⟩ := bind_eq_ok.mp hs
  cases pure_eq_ok.mp hname
  rfl

theorem link_fst (c : Compiler ρ) (s : Source) (r : Routine) (w : Workshop) : (c.link s r w).1 =
    (s.link c.schema c.functions r).map (Renderer.mk w.1.links) := by
  unfold link
  cases s.link c.schema c.functions r <;> rfl

theorem stored?_eq_none {w : Workshop} (ha : c.artifact? h w.2 s = none) :
    c.stored? h now s w = none := by
  unfold artifact? at ha
  unfold stored? Store.load
  split
  · rfl
  next hdisk =>
    rw [if_neg hdisk] at ha
    simp [ha]

theorem stored?_eq_some {w : Workshop} {a : Artifact} (ha : c.artifact? h w.2 s = some a)
    (now : Nat) :
    ∃ w', c.stored? h now s w = some (a.routine, w') ∧ w'.1.links = w.1.links ∧
      c.artifact? h w'.2 s = some a := by
  have hdisk : c.config.disk.isNone = false := by
    cases hd : c.config.disk.isNone with
    | true => simp [artifact?, hd] at ha
    | false => rfl
  simp only [artifact?, hdisk, Bool.false_eq_true, if_false] at ha
  have hload : ∃ store, w.2.load now ((Key.ofConfig c.config s).artifactHash h c.schema c.functions)
      (h (Packed.string s.template)) = some (a.routine, store) := by
    simp [Store.load, ha]
  obtain ⟨store, hload⟩ := hload
  refine ⟨({ w.1 with storeHits := w.1.storeHits + 1 }, store), ?_, rfl, ?_⟩
  · simp [stored?, hdisk, hload]
  simp only [artifact?, hdisk, Bool.false_eq_true, if_false]
  exact (Store.artifact?_load hload).trans ha

theorem build_fst (h : HashFunction) (c : Compiler ρ) (now : Nat) (s : Source) (w : Workshop) :
    (c.build h now s w).1 = c.supplied h w.2 s >>= fun r =>
      (s.link c.schema c.functions r).map (Renderer.mk w.1.links) := by
  unfold build supplied
  cases ha : c.artifact? h w.2 s with
  | some a =>
    obtain ⟨w', hstored, hlinks, -⟩ := stored?_eq_some ha now
    simp only [hstored, link_fst, hlinks]
    rfl
  | none =>
    simp only [stored?_eq_none ha, generate]
    cases c.routine h s with
    | error e => rfl
    | ok r => exact link_fst ..

theorem compile_fst {type : Shape ρ} {sink template : String}
    (hs : c.source type sink template = .ok s) (h : HashFunction) (store : Store) (now : Nat) :
    (c.compile h store now type sink template).1 =
      Except.mapError .compile
        (match c.memory.get? now ((Key.ofConfig c.config s).hash h) template with
        | some (renderer, _) => .ok renderer
        | none => c.supplied h store s >>= fun r =>
            (s.link c.schema c.functions r).map (Renderer.mk c.counters.links)) := by
  simp only [compile, hs, Memory.getOrBuild_fst, build_fst]
  cases c.memory.get? now ((Key.ofConfig c.config s).hash h) template <;> rfl

theorem supplied_toBool (h : HashFunction) (c : Compiler ρ) (store : Store) (s : Source)
    (links : Nat) :
    (c.supplied h store s >>= fun r =>
      (s.link c.schema c.functions r).map (Renderer.mk links)).toBool =
      match c.artifact? h store s with
      | some a => (s.link c.schema c.functions a.routine).toBool
      | none => (c.routine h s).toBool := by
  unfold supplied
  cases c.artifact? h store s with
  | some a => exact toBool_map ..
  | none =>
    cases hr : c.routine h s with
    | error e => rfl
    | ok r => exact (toBool_map ..).trans (Source.link_toBool hr)

theorem compile_toBool {type : Shape ρ} {sink template : String}
    (hs : c.source type sink template = .ok s) (h : HashFunction) (store : Store) (now : Nat) :
    (c.compile h store now type sink template).1.toBool =
      match c.memory.get? now ((Key.ofConfig c.config s).hash h) template with
      | some _ => true
      | none =>
        match c.artifact? h store s with
        | some a => (s.link c.schema c.functions a.routine).toBool
        | none => (c.routine h s).toBool := by
  rw [compile_fst hs, toBool_mapError]
  cases c.memory.get? now ((Key.ofConfig c.config s).hash h) template with
  | some found => rfl
  | none => exact supplied_toBool ..

def compileEach (h : HashFunction) (c : Compiler ρ) (store : Store) (type : Shape ρ)
    (sink template : String) : List Nat → List (Except CompilerError (Renderer ρ))
  | [] => []
  | now :: later =>
    let (result, c, store) := c.compile h store now type sink template
    result :: c.compileEach h store type sink template later

def Blocked (h : HashFunction) (c : Compiler ρ) (store : Store) (s : Source) (e : CompileError) :
    Prop :=
  (∀ now, c.memory.get? now ((Key.ofConfig c.config s).hash h) s.template = none) ∧
    ∃ a, c.artifact? h store s = some a ∧ s.link c.schema c.functions a.routine = .error e

/-- A blocked compilation fails and changes nothing that would help the next one. -/
theorem Blocked.compile {type : Shape ρ} {sink template : String} {e : CompileError}
    (hb : c.Blocked h store s e) (hs : c.source type sink template = .ok s) (now : Nat) :
    let (result, c', store') := c.compile h store now type sink template
    result = .error (.compile e) ∧ c'.Blocked h store' s e ∧
      c'.source type sink template = .ok s := by
  obtain ⟨hmemory, a, ha, hlink⟩ := hb
  obtain ⟨w', hstored, -, ha'⟩ := stored?_eq_some (w := (c.counters, store)) ha now
  have htemplate := template_of_source hs
  subst htemplate
  have hbuild : c.build h now s (c.counters, store) = (.error e, w') := by
    simp only [build, hstored, link, hlink]
  simp only [Compiler.compile, hs, Memory.getOrBuild, hmemory now, hbuild]
  exact ⟨rfl, ⟨hmemory, a, ha', hlink⟩, hs⟩

theorem Blocked.compileEach {type : Shape ρ} {sink template : String} {e : CompileError}
    (hb : c.Blocked h store s e) (hs : c.source type sink template = .ok s) (times : List Nat) :
    c.compileEach h store type sink template times =
      List.replicate times.length (.error (.compile e)) := by
  induction times generalizing c store with
  | nil => rfl
  | cons now later ih =>
    obtain ⟨hresult, hb', hs'⟩ := hb.compile hs now
    rw [List.length_cons, List.replicate_succ, ← ih hb' hs', ← hresult]
    rfl

section

variable {type : Shape ρ} {sink template : String}

theorem compile_withoutStore_toBool (hs : c.source type sink template = .ok s) (h : HashFunction)
    (store : Store) (now : Nat) :
    (c.withoutStore.compile h store now type sink template).1.toBool =
      match c.memory.get? now ((Key.ofConfig c.config s).hash h) template with
      | some _ => true
      | none => (c.routine h s).toBool :=
  compile_toBool (c := c.withoutStore) hs h store now

/-- With and without a store a template compiles alike just when the artifact that would be used, if
there is one, is as good as the template. -/
theorem compile_toBool_eq_iff (hs : c.source type sink template = .ok s) (h : HashFunction)
    (store : Store) (now : Nat) :
    (c.compile h store now type sink template).1.toBool =
        (c.withoutStore.compile h .empty now type sink template).1.toBool ↔
      ∀ a, c.memory.get? now ((Key.ofConfig c.config s).hash h) template = none →
        c.artifact? h store s = some a →
        ((s.link c.schema c.functions a.routine).toBool ↔ (c.routine h s).toBool) := by
  rw [compile_toBool hs, compile_withoutStore_toBool hs]
  cases c.memory.get? now ((Key.ofConfig c.config s).hash h) template with
  | some found => simp
  | none =>
    cases c.artifact? h store s with
    | none => simp
    | some a =>
      refine ⟨fun heq a' _ ha' => ?_, fun hall => Bool.eq_iff_iff.mpr (hall a rfl rfl)⟩
      cases ha'
      exact Bool.eq_iff_iff.mp heq

theorem compile_eq_withoutStore (hs : c.source type sink template = .ok s)
    (hown : ∀ a, c.artifact? h store s = some a → c.routine h s = .ok a.routine) (now : Nat) :
    (c.compile h store now type sink template).1 =
      (c.withoutStore.compile h .empty now type sink template).1 := by
  have hsupplied : c.supplied h store s = c.routine h s := by
    unfold supplied
    cases ha : c.artifact? h store s with
    | none => rfl
    | some a => exact (hown a ha).symm
  have hwith := compile_fst hs h store now
  rw [hsupplied] at hwith
  exact hwith.trans (compile_fst (c := c.withoutStore) hs h .empty now).symm

theorem compile_of_source_error {e : CompilerError} (hs : c.source type sink template = .error e)
    (h : HashFunction) (store : Store) (now : Nat) :
    (c.compile h store now type sink template).1 = .error e := by
  simp only [compile, hs]

end

/-- Whether a template compiles with a store of any content, compared with no store. They agree if
and only if the template is in memory, or no artifact counts for it, or one does and its routine
links just when the template has a routine. If no artifact counts, or if it holds the routine of
the template, the whole result is the same. An artifact that counts but does not link makes every
compilation fail until it is gone. -/
theorem compile_store_agrees_iff (h : HashFunction) (c : Compiler ρ) (store : Store) (now : Nat)
    (type : Shape ρ) (sink template : String) :
    ((c.compile h store now type sink template).1.toBool =
        (c.withoutStore.compile h .empty now type sink template).1.toBool ↔
      ∀ s a, c.source type sink template = .ok s →
        c.memory.get? now ((Key.ofConfig c.config s).hash h) template = none →
        c.artifact? h store s = some a →
        ((s.link c.schema c.functions a.routine).toBool ↔ (c.routine h s).toBool)) ∧
    ((∀ s a, c.source type sink template = .ok s → c.artifact? h store s = some a →
        c.routine h s = .ok a.routine) →
      (c.compile h store now type sink template).1 =
        (c.withoutStore.compile h .empty now type sink template).1) ∧
    ∀ s a e, c.source type sink template = .ok s →
      c.memory.get? now ((Key.ofConfig c.config s).hash h) template = none →
      c.artifact? h store s = some a → s.link c.schema c.functions a.routine = .error e →
      ∀ times, c.compileEach h store type sink template times =
        List.replicate times.length (.error (.compile e)) := by
  cases hs : c.source type sink template with
  | error e =>
    have hwith := compile_of_source_error hs h store now
    have hwithout := compile_of_source_error (c := c.withoutStore) hs h .empty now
    exact ⟨by simp [hwith, hwithout], fun _ => hwith.trans hwithout.symm, by simp⟩
  | ok s =>
    refine ⟨(compile_toBool_eq_iff hs h store now).trans ?_, fun hown => ?_, ?_⟩
    · exact ⟨fun hall s' a hs' => by cases hs'; exact hall a, fun hall a => hall s a rfl⟩
    · exact compile_eq_withoutStore hs (fun a ha => hown s a rfl ha) now
    · rintro s' a e hs' hmemory ha hlink times
      cases hs'
      obtain rfl := template_of_source hs
      have hb : c.Blocked h store s e := ⟨fun later => Memory.get?_none hmemory later, a, ha, hlink⟩
      exact hb.compileEach hs times

def greeter : Compiler String :=
  ⟨personSchema, .empty, { policy := .strict, disk := some { dir := "cache" } }, .empty 16 none, {}⟩

def greet (c : Compiler String) (store : Store) (now : Nat) :
    Except CompilerError (Renderer String) × Compiler String × Store :=
  c.compile .mixing store now person "text" personGreeting.template

/-- What the compiler leaves in an empty store, with one letter changed in the name of the input
type. -/
def damagedStore : Store :=
  let spoil (f : File) : File := { f with content := f.content.map (·.set 60 97) }
  ⟨(greeter.greet .empty 0).2.2.files.map spoil⟩

/-- The greeting compiles without a store and with an empty one, but never again with the damaged
file, which can still be read. -/
theorem compile_damagedStore :
    (greeter.withoutStore.greet .empty 5).1.toBool ∧ (greeter.greet .empty 5).1.toBool ∧
    (greeter.greet damagedStore 5).1.toBool = false ∧
    (greeter.compileEach .mixing damagedStore person "text"
      personGreeting.template [5, 6, 7]).map (fun result =>
        match result with
        | .error e => some e
        | .ok _ => none) = List.replicate 3 (some (.compile
          ⟨personGreeting.template, [.ofLink (.unknownType "Parson")]⟩)) := by
  decide +kernel

end Compiler

end PathTemplate
