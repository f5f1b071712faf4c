import Mathlib.Algebra.Ring.Nat
import PathTemplate.Function
import PathTemplate.Program.Run
import PathTemplate.Proofs.Tree.Typing

namespace PathTemplate

open PathTemplate.Tree

variable {ρ : Type}

namespace Value

mutual

/-- Whether there is neither a map nor a record in the value, at any depth. -/
def isPlain : Value ρ → Bool
  | .list items => allPlain items
  | .map .. | .record _ => false
  | _ => true

def allPlain : List (Value ρ) → Bool
  | [] => true
  | v :: vs => isPlain v && allPlain vs

end

/-- Whether the value is a map or a record itself, which no sink can write. -/
def isUnwritable : Value ρ → Bool
  | .map .. | .record _ => true
  | _ => false

theorem allPlain_iff {vs : List (Value ρ)} : allPlain vs ↔ ∀ v ∈ vs, v.isPlain := by
  induction vs with
  | nil => simp [allPlain]
  | cons v vs ih => simp [allPlain, ih]

theorem isUnwritable_of_isPlain {v : Value ρ} (h : v.isPlain) : v.isUnwritable = false := by
  cases v <;> simp_all [isPlain, isUnwritable]

theorem isPlain_of_isNull {v : Value ρ} (h : v.isNull) : v.isPlain := by
  cases v <;> simp_all [isPlain, isNull]

end Value

theorem Constant.value_isPlain (c : Constant) : (c.value : Value ρ).isPlain := by
  cases c <;> rfl

/-- The type that every record was made with: what tells it apart, and its name. -/
structure RecordTypes (ρ : Type) where
  id : ρ → String
  name : ρ → String

/-- A record of the type that a name stands for: the registered one if there is one. -/
def RecordTypes.IsA (types : RecordTypes ρ) (schema : Schema ρ) (r : ρ) (name : String) : Prop :=
  match schema.shape? name with
  | some shape => types.id r = shape.id
  | none => types.name r = name

/-- The form of a value of a type that is not null. Items of lists and values of maps may be, and
what is of unknown type is at least known to be printable. -/
def HasShape (isA : ρ → String → Prop) : Ty → Value ρ → Prop
  | .bool, v => ∃ b, v = .bool b
  | .byte, v => ∃ n, v = .byte n
  | .short, v => ∃ n, v = .short n
  | .int, v => ∃ n, v = .int n
  | .long, v => ∃ n, v = .long n
  | .float, v => ∃ x, v = .float x
  | .double, v => ∃ x, v = .double x
  | .string, v => ∃ s, v = .string s
  | .bytes, v => ∃ b, v = .bytes b
  | .dateTime, v => ∃ t, v = .dateTime t
  | .date, v => ∃ d, v = .date d
  | .enum _, v => ∃ name, v = .enum name
  | .list item, v => ∃ items, v = .list items ∧ ∀ x ∈ items, x.isNull ∨ HasShape isA item x
  | .map value, v =>
    ∃ size lookup, v = .map size lookup ∧
      ∀ key, (lookup key).isNull ∨ HasShape isA value (lookup key)
  | .record name, v => ∃ r, v = .record r ∧ isA r name
  | .unknown, v => v.isPlain

/-- A value of a type: null only where the type is flagged or unknown. -/
def Conforms (isA : ρ → String → Prop) (t : FlaggedTy) (v : Value ρ) : Prop :=
  if v.isNull then t.mayBeAbsent = true else HasShape isA t.ty v

/-- What a function may answer. One of unknown type may hand on an argument. -/
def Answers (isA : ρ → String → Prop) (t : FlaggedTy) (args : List (Value ρ)) (v : Value ρ) : Prop :=
  if t.ty = .unknown then v.isNull ∨ v ∈ args ∨ v.isPlain else Conforms isA t v

/-- Members, functions and parameters that keep to their declared types. -/
structure Conforming (types : RecordTypes ρ) (schema : Schema ρ) (functions : Functions ρ)
    (params : Params ρ) : Prop where
  members : ∀ shape ∈ schema.shapes, ∀ m ∈ shape.members, ∀ r, types.id r = shape.id →
    Conforms (types.IsA schema) m.ty (m.read r)
  functions : ∀ f ∈ functions.all, ∀ args, args.length = f.arity →
    Answers (types.IsA schema) f.returns args (f.body args)
  params : ∀ name v, params.get? name = some v → v.isUnwritable = false

section Shapes

variable {isA : ρ → String → Prop}

theorem HasShape.not_null {ty : Ty} {v : Value ρ} (h : HasShape isA ty v) (hu : ty ≠ .unknown) :
    v.isNull = false := by
  cases ty with
  | unknown => exact absurd rfl hu
  | list => obtain ⟨items, rfl, -⟩ := h; rfl
  | map => obtain ⟨size, lookup, rfl, -⟩ := h; rfl
  | record => obtain ⟨r, rfl, -⟩ := h; rfl
  | _ => obtain ⟨x, rfl⟩ := h; rfl

theorem HasShape.isPlain {ty : Ty} {v : Value ρ} (h : HasShape isA ty v) (hp : ty.isPrintable) :
    v.isPlain := by
  induction ty generalizing v with
  | list item ih =>
    obtain ⟨items, rfl, hitems⟩ := h
    rw [Value.isPlain, Value.allPlain_iff]
    intro x hx
    rcases hitems x hx with hx | hx
    · exact Value.isPlain_of_isNull hx
    · exact ih hx hp
  | unknown => exact h
  | map | record => simp [Ty.isPrintable] at hp
  | _ => obtain ⟨x, rfl⟩ := h; rfl

theorem Conforms.null_or {t : FlaggedTy} {v : Value ρ} (h : Conforms isA t v) :
    v.isNull ∨ HasShape isA t.ty v := by
  unfold Conforms at h
  split at h
  next hv => exact .inl hv
  next => exact .inr h

theorem HasShape.int64 {ty : Ty} {v : Value ρ} (h : HasShape isA ty v) (hi : ty.isIntegral) :
    ∃ n, v.int64? = some n := by
  cases ty with
  | byte | short | int | long =>
    obtain ⟨n, rfl⟩ := h
    exact ⟨_, rfl⟩
  | _ => simp [Ty.isIntegral] at hi

theorem HasShape.binary64 {ty : Ty} {v : Value ρ} (h : HasShape isA ty v) (hn : ty.isNumeric) :
    ∃ x, v.binary64? = some x := by
  cases ty with
  | byte | short | int | long | float | double =>
    obtain ⟨x, rfl⟩ := h
    exact ⟨_, rfl⟩
  | _ => simp [Ty.isNumeric] at hn

theorem HasShape.wholeInt64 {ty : Ty} {v : Value ρ} (h : HasShape isA ty v) (hn : ty.isNumeric) :
    ∃ n, v.wholeInt64? = some n := by
  cases ty with
  | byte | short | int | long | float | double =>
    obtain ⟨x, rfl⟩ := h
    exact ⟨_, rfl⟩
  | _ => simp [Ty.isNumeric] at hn

/-- The operation on all whole numbers. Division cuts toward zero and the remainder has the sign of
the dividend. -/
def Operator.exact (op : Operator) (a b : Int) : Int :=
  match op with
  | .add => a + b
  | .sub => a - b
  | .mul => a * b
  | .div => a.tdiv b
  | .rem => a.tmod b

theorem toInt_toInt32_of_fits {n : Int64} (hlow : -2147483648 ≤ n.toInt)
    (hhigh : n.toInt < 2147483648) : n.toInt32.toInt = n.toInt := by
  rw [Int64.toInt_toInt32, Int.bmod_eq_of_le (by omega) (by omega)]

theorem toInt32_ne_zero {n : Int64} (hlow : -2147483648 ≤ n.toInt) (hhigh : n.toInt < 2147483648)
    (h : n ≠ 0) : n.toInt32 ≠ 0 := by
  intro hz
  have hi := toInt_toInt32_of_fits hlow hhigh
  rw [hz] at hi
  exact h (Int64.toInt_inj.mp hi.symm)

theorem onInt32_exact {a b : Int32} {op : Operator} (h : op = .div ∨ op = .rem → b ≠ 0) :
    ∃ r, op.onInt32 a b = some r ∧ r.toInt = (op.exact a.toInt b.toInt).bmod (2 ^ 32) := by
  cases op with
  | add => exact ⟨a + b, rfl, Int32.toInt_add a b⟩
  | sub => exact ⟨a - b, rfl, Int32.toInt_sub a b⟩
  | mul => exact ⟨a * b, rfl, Int32.toInt_mul a b⟩
  | div => exact ⟨a / b, if_neg (h (.inl rfl)), Int32.toInt_div a b⟩
  | rem =>
    refine ⟨a % b, if_neg (h (.inr rfl)), ?_⟩
    rw [Operator.exact, ← Int32.toInt_mod]
    exact (Int32.toInt_bmod _).symm

theorem onInt64_exact {a b : Int64} {op : Operator} (h : op = .div ∨ op = .rem → b ≠ 0) :
    ∃ r, op.onInt64 a b = some r ∧ r.toInt = (op.exact a.toInt b.toInt).bmod (2 ^ 64) := by
  cases op with
  | add => exact ⟨a + b, rfl, Int64.toInt_add a b⟩
  | sub => exact ⟨a - b, rfl, Int64.toInt_sub a b⟩
  | mul => exact ⟨a * b, rfl, Int64.toInt_mul a b⟩
  | div => exact ⟨a / b, if_neg (h (.inl rfl)), Int64.toInt_div a b⟩
  | rem =>
    refine ⟨a % b, if_neg (h (.inr rfl)), ?_⟩
    rw [Operator.exact, ← Int64.toInt_mod]
    exact (Int64.toInt_bmod _).symm

theorem HasShape.math {ty : Ty} {v : Value ρ} {op : Operator} {operand : Operand}
    (h : HasShape isA ty v) (hn : ty.isNumeric) (hf : OperandFits (promoted ty operand) op operand) :
    HasShape isA (promoted ty operand) (v.math op operand (promoted ty operand)) := by
  obtain ⟨x, hx⟩ := h.binary64 hn
  cases operand with
  | float y =>
    refine ⟨op.onBinary64 x y, ?_⟩
    simp [promoted, Value.math, hx, Operand.binary64]
  | int n =>
    obtain ⟨hrange, hzero⟩ := hf
    cases ty with
    | byte | short | int =>
      obtain ⟨a, ha⟩ := h.int64 rfl
      obtain ⟨hlow, hhigh⟩ := hrange rfl
      have hdivisor : op = .div ∨ op = .rem → n.toInt32 ≠ 0 := fun hop =>
        toInt32_ne_zero hlow hhigh (hzero rfl hop)
      obtain ⟨m, hm, -⟩ := onInt32_exact (a := a.toInt32) hdivisor
      exact ⟨m, by simp [promoted, Value.math, ha, hm]⟩
    | long =>
      obtain ⟨a, ha⟩ := h.int64 rfl
      obtain ⟨m, hm, -⟩ := onInt64_exact (a := a) (hzero rfl)
      exact ⟨m, by simp [promoted, Value.math, ha, hm]⟩
    | float | double => exact ⟨_, by simp [promoted, Value.math, hx]; rfl⟩
    | _ => simp [Ty.isNumeric] at hn

theorem Value.text_isSome {v : Value ρ} (hp : v.isPlain) (hn : v.isNull = false) :
    ∃ s, v.text? = some s := by
  cases v <;> simp_all [Value.isPlain, Value.isNull, Value.text?]

theorem Value.cast_numeric {v : Value ρ} (hv : v.isNull = false) {n : Int64} {x : Numeric.Binary64}
    (hn : v.wholeInt64? = some n) (hx : v.binary64? = some x) :
    v.cast .byte = .byte n.toInt8 ∧ v.cast .short = .short n.toInt16 ∧
      v.cast .int = .int n.toInt32 ∧ v.cast .long = .long n ∧ v.cast .float = .float x.narrow ∧
      v.cast .double = .double x := by
  cases v <;> simp_all [Value.cast, Value.isNull, Value.wholeInt64?, Value.int64?]

theorem castAllowed_numeric {ty target : Ty} (hc : castAllowed ty target) (ht : target.isNumeric) :
    ty.isNumeric ∨ ty = .dateTime ∧ target = .long := by
  simp only [castAllowed, Bool.or_eq_true, Bool.and_eq_true, beq_iff_eq] at hc
  rcases hc with ((rfl | ⟨h, -⟩) | ⟨rfl, -⟩) | h
  · exact .inl ht
  · exact .inl h
  · simp [Ty.isNumeric] at ht
  · exact .inr h

theorem HasShape.cast {ty target : Ty} {v : Value ρ} (h : HasShape isA ty v)
    (hv : v.isNull = false) (hc : castAllowed ty target) : HasShape isA target (v.cast target) := by
  by_cases ht : target.isNumeric
  · rcases castAllowed_numeric hc ht with hn | ⟨rfl, rfl⟩
    · obtain ⟨n, hw⟩ := h.wholeInt64 hn
      obtain ⟨x, hx⟩ := h.binary64 hn
      have hcast := Value.cast_numeric hv hw hx
      cases target with
      | byte => exact ⟨_, hcast.1⟩
      | short => exact ⟨_, hcast.2.1⟩
      | int => exact ⟨_, hcast.2.2.1⟩
      | long => exact ⟨_, hcast.2.2.2.1⟩
      | float => exact ⟨_, hcast.2.2.2.2.1⟩
      | double => exact ⟨_, hcast.2.2.2.2.2⟩
      | _ => simp [Ty.isNumeric] at ht
    · obtain ⟨t, rfl⟩ := h
      exact ⟨_, rfl⟩
  simp only [castAllowed, Bool.or_eq_true, Bool.and_eq_true, beq_iff_eq, ht, and_false, or_false,
    Bool.false_eq_true] at hc
  by_cases hs : target = .string
  · subst hs
    have hp : ty.isPrintable := by
      rcases hc with (rfl | hp) | ⟨-, h⟩
      · rfl
      · exact hp.2
      · simp at h
    obtain ⟨s, hs⟩ := Value.text_isSome (h.isPlain hp) hv
    refine ⟨s, ?_⟩
    cases v <;> simp_all [Value.cast, Value.isNull]
  · -- Every other cast keeps the type and the value.
    obtain rfl : ty = target := by
      rcases hc with (h | h) | h
      · exact h
      · exact absurd h.1 hs
      · rw [h.2] at ht
        exact absurd rfl ht
    have hid : v.cast ty = v := by
      cases v <;> cases ty <;> simp_all [Value.cast, Value.isNull, Ty.isNumeric]
    rwa [hid]

end Shapes

theorem access_null (schema : Schema ρ) {v : Value ρ} (h : v.isNull) (a : Access) :
    (access schema v a).isNull := by
  cases v <;> simp_all [Value.isNull]
  cases a <;> rfl

theorem memberAt?_eq_some {schema : Schema ρ} {a : Access} {m : Member ρ}
    (h : memberAt? schema a = some m) {owner name : String}
    (ha : a = .field owner name ∨ a = .method owner name) :
    ∃ shape, schema.shape? owner = some shape ∧ shape ∈ schema.shapes ∧ m ∈ shape.members := by
  have hmem : ∀ {shape}, schema.shape? owner = some shape → shape ∈ schema.shapes :=
    fun h => List.mem_of_find?_eq_some h
  rcases ha with rfl | rfl
  · obtain ⟨shape, hs, hm⟩ := Option.bind_eq_some_iff.mp h
    exact ⟨shape, hs, hmem hs, List.mem_of_find?_eq_some hm⟩
  · obtain ⟨shape, hs, hm⟩ := Option.bind_eq_some_iff.mp h
    exact ⟨shape, hs, hmem hs, List.mem_of_find?_eq_some hm⟩

namespace Conforming

variable {types : RecordTypes ρ} {schema : Schema ρ} {functions : Functions ρ} {params : Params ρ}

theorem access (h : Conforming types schema functions params) {ty : Ty} {a : Access}
    {next : FlaggedTy} (hn : Navigates schema ty a next) {v : Value ρ}
    (hv : HasShape (types.IsA schema) ty v) :
    Conforms (types.IsA schema) next (Tree.access schema v a) := by
  have hmember : ∀ {owner name m a}, memberAt? schema a = some m →
      a = .field owner name ∨ a = .method owner name → ∀ r, types.IsA schema r owner →
      Conforms (types.IsA schema) m.ty (m.read r) := by
    intro owner name m a hm ha r hr
    obtain ⟨shape, hs, hshape, hmem⟩ := memberAt?_eq_some hm ha
    unfold RecordTypes.IsA at hr
    rw [hs] at hr
    exact h.members shape hshape m hmem r hr
  cases hn with
  | field hm =>
    obtain ⟨r, rfl, hr⟩ := hv
    simpa [Tree.access, hm] using hmember hm (.inl rfl) r hr
  | method hm =>
    obtain ⟨r, rfl, hr⟩ := hv
    simpa [Tree.access, hm] using hmember hm (.inr rfl) r hr
  | key =>
    obtain ⟨size, lookup, rfl, hl⟩ := hv
    unfold Conforms
    split
    next => rfl
    next hnull => exact (hl _).resolve_left hnull

theorem steps (h : Conforming types schema functions params) {ty last : Ty} {steps : List Access}
    (hr : Reaches schema ty steps last) {v : Value ρ}
    (hv : v.isNull ∨ HasShape (types.IsA schema) ty v) :
    (steps.foldl (Tree.access schema) v).isNull ∨
      HasShape (types.IsA schema) last (steps.foldl (Tree.access schema) v) := by
  induction hr generalizing v with
  | here => exact hv
  | step hn _ ih =>
    refine ih ?_
    rcases hv with hv | hv
    · exact .inl (access_null schema hv _)
    · exact (h.access hn hv).null_or

variable {s : Tree.Scope ρ} {env : Run.Env ρ}

theorem argument (h : Conforming types s.schema s.functions params)
    (hin : types.IsA s.schema env.input s.input) {a : Argument} (ha : ArgumentFits s True a) :
    (World.argument ⟨s.schema, s.functions, env⟩ a).isPlain := by
  cases a with
  | constant c => exact c.value_isPlain
  | null => rfl
  | path steps =>
    obtain ⟨ty, hr, hp⟩ := ha
    rcases h.steps hr (.inr ⟨env.input, rfl, hin⟩) with hv | hv
    · exact Value.isPlain_of_isNull hv
    · exact hv.isPlain (hp trivial)

theorem call (h : Conforming types s.schema s.functions params)
    (hin : types.IsA s.schema env.input s.input) {name : String} {args : List Argument}
    {ty : FlaggedTy} {f : Function ρ} (hf : s.functions.lookup? name args.length = some f)
    (hty : f.returns = ty) (ha : ∀ a ∈ args, ArgumentFits s (ty.ty = .unknown) a) :
    Conforms (types.IsA s.schema) ty (World.call ⟨s.schema, s.functions, env⟩ name args) := by
  subst hty
  have harity : args.length = f.arity := by
    have := List.find?_some hf
    simp only [Bool.and_eq_true, beq_iff_eq] at this
    exact this.2.symm
  have hans := h.functions f (List.mem_of_find?_eq_some hf)
    (args.map (World.argument ⟨s.schema, s.functions, env⟩)) (by simpa using harity)
  simp only [World.call, hf, Option.map_some, Option.getD_some]
  unfold Answers at hans
  split at hans
  next hu =>
    unfold Conforms
    split
    next => simp [FlaggedTy.mayBeAbsent, hu]
    next hnull =>
      rw [hu]
      rcases hans with hans | hans | hans
      · exact absurd hans hnull
      · obtain ⟨a, hmem, hv⟩ := List.mem_map.mp hans
        rw [← hv]
        refine h.argument hin ?_
        have := ha a hmem
        cases a with
        | constant | null => trivial
        | path steps =>
          obtain ⟨last, hr, hp⟩ := this
          exact ⟨last, hr, fun _ => hp hu⟩
      · exact hans
  next => exact hans

end Conforming

end PathTemplate
